/-
  XioFlow.Supervisor.ReadSoundness

  Fresh evidence and the tree: what was read is as it was, and where nothing
  else changed either the sizes and times of all other entries are the same.

  Entries under a name that is skipped in the root are not looked at, entries
  that were read are judged by their fingerprints alone, and a root that is no
  directory any more makes the evidence stale whether or not anything was read
  under it.
-/

import XioFlow.Supervisor.ReadStatus

namespace XioFlow

open Lib Lib.JsonText

namespace ReadTracker

/-! ## What stays the same -/

/-- A file with the same bytes. -/
def SameFile (b n : Tree) (path : List String) : Prop :=
  ∃ i j bytes, b.node? path = some (.file i) ∧ i.content = some bytes ∧
    n.node? path = some (.file j) ∧ j.content = some bytes

/-- A directory with the same names, the skipped ones aside. -/
def SameNames (b n : Tree) (path : List String) : Prop :=
  ∃ i ns c j ms d, b.node? path = some (.dir i ns c) ∧ n.node? path = some (.dir j ms d) ∧
    ∀ name, Walked (path ++ [name]) → (name ∈ ns.list ↔ name ∈ ms.list)

/-- What was read is as it was. -/
def SameRead (b n : Tree) (entry : String) : Prop :=
  if isDirEntry entry then SameNames b n (entryPath entry) else SameFile b n (entryPath entry)

/-- No name in the directory has a newline in it. -/
def OneLine (t : Tree) (path : List String) : Prop :=
  ∀ info names child, t.node? path = some (.dir info names child) →
    ∀ name ∈ names.list, '\n' ∉ name.toList

/-- The size and the time of a file, or the text of a link. -/
inductive Stamp where
  | file (size : Nat) (mtimeNs : Int)
  | link (target : String)
  deriving DecidableEq

def stamp? : Tree → Option Stamp
  | .file info => some (.file info.stat.size info.stat.mtimeNs)
  | .link target => some (.link target)
  | .dir _ _ _ => none

/-- The stamp of what stands at a path, if it is no directory. -/
def stampAt? (t : Tree) (path : List String) : Option Stamp := (t.node? path).bind stamp?

/-- What was collected for an entry of the read set. -/
structure Recorded (b : Tree) (entry : String) : Prop where
  node : ∃ node, b.node? (entryPath entry) = some node ∧ node.isLink = false ∧
    node.isDir = isDirEntry entry
  walked : Walked (entryPath entry)
  /-- the root has one entry only -/
  root : isDirEntry entry = true → entryPath entry = [] → entry = "./"

variable {b : Tree} {entry : String} {data : List UInt8} {n : Tree}

theorem Recorded.proper (h : Recorded b entry) : ∀ name ∈ entryPath entry, IsEntryName name := by
  obtain ⟨node, hnode, -, -⟩ := h.node
  exact DirTree.proper_of_node? hnode

/-! ## Listings -/

theorem mem_countedNames (h : Recorded b entry) (hdir : isDirEntry entry = true)
    {names : List String} {name : String} :
    name ∈ countedNames entry names ↔ name ∈ names ∧ Walked (entryPath entry ++ [name]) := by
  unfold countedNames
  rw [List.mem_filter]
  refine and_congr_right fun _ => ?_
  by_cases hroot : entry = "./"
  · have hpath : entryPath entry = [] := if_pos hroot
    rw [hpath]
    simp [hroot, Walked]
  · have hpath : entryPath entry ≠ [] := fun hempty => hroot (h.root hdir hempty)
    obtain ⟨first, rest, hfirst⟩ := List.exists_cons_of_ne_nil hpath
    have hwalked := h.walked
    rw [hfirst] at hwalked
    have hgoal : Walked (entryPath entry ++ [name]) := by
      rw [hfirst]
      exact hwalked
    simp [hroot, hgoal]

theorem countedNames_nodup (entry : String) (names : Names) :
    (countedNames entry names.list).Nodup := names.nodup.filter _

theorem countedNames_proper {name : String} {names : Names}
    (h : name ∈ countedNames entry names.list) : IsEntryName name :=
  names.proper name (List.mem_filter.1 h).1

/-- The same names give the same listing. -/
theorem listing_eq_of_mem_iff {xs ys : List String} (hxs : xs.Nodup) (hys : ys.Nodup)
    (h : ∀ name, name ∈ xs ↔ name ∈ ys) : listing xs = listing ys := by
  have hperm : xs.Perm ys := (List.perm_ext_iff_of_nodup hxs hys).2 h
  unfold listing
  rw [Supervisor.sortTexts_eq_iff.2 hperm]

/-- The same listing is of the same names, unless one of them has a newline in it. -/
theorem mem_iff_of_listing_eq {xs ys : List String}
    (hxs : ∀ name ∈ xs, IsEntryName name ∧ '\n' ∉ name.toList)
    (hys : ∀ name ∈ ys, IsEntryName name ∧ '\n' ∉ name.toList)
    (h : listing xs = listing ys) (name : String) : name ∈ xs ↔ name ∈ ys := by
  have hparts : ∀ {zs : List String}, (∀ name ∈ zs, IsEntryName name ∧ '\n' ∉ name.toList) →
      ∀ part ∈ (sortTexts zs).map String.toList, part ≠ [] ∧ '\n' ∉ part := by
    intro zs hzs part hpart
    obtain ⟨name, hname, rfl⟩ := List.mem_map.1 hpart
    obtain ⟨hproper, hline⟩ := hzs name (mem_sortTexts.1 hname)
    exact ⟨hproper.1.1, hline⟩
  have hsorted := joinAtChar_injective (hparts hxs) (hparts hys) h
  have hperm : xs.Perm ys := Supervisor.sortTexts_eq_iff.1
    (List.map_injective_iff.2 (fun _ _ => String.toList_inj.1) hsorted)
  exact hperm.mem_iff

example : listing ["a\nb"] = listing ["a", "b"] := rfl

/-! ## Same data and the same reads -/

theorem digested_file {t : Tree} (hfile : isDirEntry entry = false) :
    digested? t entry = some data ↔
      ∃ info, t.node? (entryPath entry) = some (.file info) ∧ info.content = some data := by
  unfold digested?
  rw [Option.bind_eq_some_iff]
  constructor
  · rintro ⟨node, hnode, hdata⟩
    obtain ⟨hlink, hkind⟩ := kind_of_dataOf hdata
    cases node with
    | link => cases hlink
    | dir => cases (show true = false from hkind.trans hfile)
    | file info =>
      rw [dataOf, hfile, if_neg Bool.false_ne_true] at hdata
      exact ⟨info, hnode, hdata⟩
  · rintro ⟨info, hnode, hdata⟩
    refine ⟨_, hnode, ?_⟩
    rw [dataOf, hfile, if_neg Bool.false_ne_true, hdata]

theorem digested_dir {t : Tree} (hdir : isDirEntry entry = true) :
    digested? t entry = some data ↔
      ∃ info names child, t.node? (entryPath entry) = some (.dir info names child) ∧
        utf8 (listing (countedNames entry names.list)) = data := by
  unfold digested?
  rw [Option.bind_eq_some_iff]
  constructor
  · rintro ⟨node, hnode, hdata⟩
    obtain ⟨hlink, hkind⟩ := kind_of_dataOf hdata
    cases node with
    | link => cases hlink
    | file => cases (show false = true from hkind.trans hdir)
    | dir info names child =>
      rw [dataOf, if_pos hdir] at hdata
      exact ⟨info, names, child, hnode, Option.some.inj hdata⟩
  · rintro ⟨info, names, child, hnode, rfl⟩
    exact ⟨_, hnode, if_pos hdir⟩

theorem sameFile_of_digested (hfile : isDirEntry entry = false)
    (hb : digested? b entry = some data) (hn : digested? n entry = some data) :
    SameFile b n (entryPath entry) := by
  obtain ⟨i, hi, hicontent⟩ := (digested_file hfile).1 hb
  obtain ⟨j, hj, hjcontent⟩ := (digested_file hfile).1 hn
  exact ⟨i, j, data, hi, hicontent, hj, hjcontent⟩

theorem sameNames_of_digested (h : Recorded b entry) (hdir : isDirEntry entry = true)
    (hb : digested? b entry = some data) (hn : digested? n entry = some data)
    (hbline : OneLine b (entryPath entry)) (hnline : OneLine n (entryPath entry)) :
    SameNames b n (entryPath entry) := by
  obtain ⟨i, ns, c, hi, hidata⟩ := (digested_dir hdir).1 hb
  obtain ⟨j, ms, d, hj, hjdata⟩ := (digested_dir hdir).1 hn
  have hlisting := Utf8Decoder.utf8_injective (hidata.trans hjdata.symm)
  have hmem := mem_iff_of_listing_eq
    (fun name hname => ⟨countedNames_proper hname,
      hbline i ns c hi name ((mem_countedNames h hdir).1 hname).1⟩)
    (fun name hname => ⟨countedNames_proper hname,
      hnline j ms d hj name ((mem_countedNames h hdir).1 hname).1⟩) hlisting
  refine ⟨i, ns, c, j, ms, d, hi, hj, fun name hwalked => ?_⟩
  have hcounted := hmem name
  rw [mem_countedNames h hdir, mem_countedNames h hdir] at hcounted
  constructor
  · intro hname
    exact (hcounted.1 ⟨hname, hwalked⟩).1
  · intro hname
    exact (hcounted.2 ⟨hname, hwalked⟩).1

/-- What is as it was has the data that it had. -/
theorem digested_of_sameRead (h : Recorded b entry) (hb : digested? b entry = some data)
    (hsame : SameRead b n entry) : digested? n entry = some data := by
  unfold SameRead at hsame
  cases hdir : isDirEntry entry with
  | false =>
    rw [hdir, if_neg Bool.false_ne_true] at hsame
    obtain ⟨i, j, bytes, hi, hicontent, hj, hjcontent⟩ := hsame
    obtain ⟨i', hi', hidata⟩ := (digested_file hdir).1 hb
    rw [hi] at hi'
    cases hi'
    rw [hicontent] at hidata
    cases hidata
    exact (digested_file hdir).2 ⟨j, hj, hjcontent⟩
  | true =>
    rw [hdir, if_pos rfl] at hsame
    obtain ⟨i, ns, c, j, ms, d, hi, hj, hnames⟩ := hsame
    obtain ⟨i', ns', c', hi', hidata⟩ := (digested_dir hdir).1 hb
    rw [hi] at hi'
    cases hi'
    refine (digested_dir hdir).2 ⟨j, ms, d, hj, ?_⟩
    rw [← hidata]
    have hlisting := listing_eq_of_mem_iff (countedNames_nodup entry ns)
      (countedNames_nodup entry ms) fun name => by
        rw [mem_countedNames h hdir, mem_countedNames h hdir]
        exact and_congr_left fun hwalked => hnames name hwalked
    rw [hlisting]

/-! ## What is collected -/

section

variable {sha256 : List UInt8 → String}

/-- What the evidence of a root says of the tree it was collected from. -/
structure Evidenced (sha256 : List UInt8 → String) (b : Tree) (r : RootEvidence) (reads : Record) :
    Prop where
  dir : b.isDir = true
  observed : r.reads = some reads
  entries : ∀ e ∈ reads, Recorded b e.1 ∧
    ∃ data, digested? b e.1 = some data ∧ e.2 = sha256 data
  tree : ∀ path, (∀ name ∈ path, IsEntryName name) → Walked path →
    r.tree.lookup (relFrom "" path) = (b.node? path).bind (treeText sha256)

variable {disk : Disk} {r : RootEvidence} {evidence : ReadEvidence} {ref : String}

variable {root : String} {t : Tree} {s : Session} {b : Tree} {reads : Record}
  {stored : Except Failure Unit}

theorem recorded_of_mem_reads {entry : String} {s : Scan} (h : scan sha256 disk root = .ok s)
    (ht : disk root = some t) (hentry : entry ∈ s.reads) : Recorded t entry := by
  obtain ⟨path, node, hwalked, hnode, hread⟩ := (mem_scan_reads h ht).1 hentry
  obtain ⟨hpath, hlink, hkind⟩ := readEntry_spec hnode hread
  refine ⟨⟨node, hpath ▸ hnode, hlink, hkind⟩, hpath ▸ hwalked, ?_⟩
  intro hdir hempty
  rw [hpath] at hempty
  subst hempty
  cases node with
  | link => cases hlink
  | file => cases (show false = true from hkind.trans hdir)
  | dir =>
    unfold readEntry? at hread
    dsimp only at hread
    split at hread
    · cases hread
      rfl
    · cases hread

theorem collectRoot_root (h : collectRoot sha256 s disk root = .ok r) : r.root = root := by
  obtain ⟨found, -, h⟩ := except_bind_ok h
  split at h
  · cases h
    rfl
  · obtain ⟨prints, -, h⟩ := except_bind_ok h
    cases h
    rfl

theorem collectRoot_evidenced (h : collectRoot sha256 s disk root = .ok r)
    (hreads : r.reads.isSome = true) :
    r.root = root ∧ ∃ b reads, disk root = some b ∧ Evidenced sha256 b r reads := by
  obtain ⟨found, hscan, h⟩ := except_bind_ok h
  obtain ⟨b, -, hroot, hdir, -⟩ := scan_ok hscan
  split at h
  · cases h
    cases hreads
  · obtain ⟨prints, hprints, h⟩ := except_bind_ok h
    cases h
    refine ⟨rfl, b, propertyOrder prints, hroot, hdir, rfl, ?_, ?_⟩
    · intro e he
      obtain ⟨entry, hentry, hmap⟩ :=
        origin_of_mapM_ok hprints ((propertyOrder_perm prints).mem_iff.1 he)
      obtain ⟨print, hprint, rfl⟩ := except_map_ok hmap
      have hrecorded := recorded_of_mem_reads hscan hroot hentry
      obtain ⟨node, hnode, hlink, hkind⟩ := hrecorded.node
      have hbdir : b.isLink = false := by
        cases b with
        | link => cases hdir
        | _ => rfl
      unfold fingerprintAt at hprint
      rw [hroot] at hprint
      exact ⟨hrecorded, fingerprint_of_node hbdir hnode hlink hkind hprint⟩
    · intro path hproper hwalked
      exact lookup_scan_tree hscan hroot hproper hwalked

/-! ## What is compared -/

/-- How `tree` writes a stamp. -/
def Stamp.text (sha256 : List UInt8 → String) : Stamp → String
  | .file size mtimeNs => String.ofList (digitsOf size ++ ':' :: intDigits mtimeNs)
  | .link target => "link:" ++ linkHash sha256 target

theorem treeText_eq (node : Tree) : treeText sha256 node = (stamp? node).map (Stamp.text sha256) := by
  cases node <;> rfl

theorem not_isDigit_colon : ':'.isDigit = false := rfl

theorem Stamp.text_file_ne_link (size : Nat) (mtimeNs : Int) (target : String) :
    Stamp.text sha256 (.file size mtimeNs) ≠ Stamp.text sha256 (.link target) := by
  intro heq
  have hchars := congrArg String.toList heq
  rw [Stamp.text, Stamp.text, String.toList_ofList, String.toList_append] at hchars
  have hlink : ("link:" : String).toList = ['l', 'i', 'n', 'k', ':'] := rfl
  obtain ⟨digit, digits, hdigits⟩ :=
    List.exists_cons_of_ne_nil (show digitsOf size ≠ [] from Nat.toDigits_ne_nil)
  rw [hlink, hdigits, List.cons_append, List.cons_append] at hchars
  have hmem : digit ∈ digitsOf size := hdigits ▸ List.mem_cons_self
  rw [(List.cons.inj hchars).1] at hmem
  exact not_mem_digitsOf rfl size hmem

theorem Stamp.text_injective (hinj : Function.Injective sha256) :
    Function.Injective (Stamp.text sha256) := by
  intro x y heq
  cases x with
  | file size mtimeNs =>
    cases y with
    | link target => exact absurd heq (Stamp.text_file_ne_link size mtimeNs target)
    | file =>
      have hchars := String.ofList_injective heq
      have hcolon : ∀ i, ':' ∉ intDigits i :=
        not_mem_intDigits not_isDigit_colon (by decide)
      obtain ⟨hsize, htime⟩ := append_sep_inj (hcolon _) (hcolon _) hchars
      rw [digitsOf_injective hsize, intDigits_injective htime]
  | link target =>
    cases y with
    | file size mtimeNs =>
      exact absurd heq.symm (Stamp.text_file_ne_link size mtimeNs target)
    | link target' =>
      have hhash : linkHash sha256 target = linkHash sha256 target' := by
        have hchars := congrArg String.toList heq
        rw [Stamp.text, Stamp.text, String.toList_append, String.toList_append] at hchars
        exact String.toList_inj.1 (List.append_cancel_left hchars)
      have htext := Utf8Decoder.utf8_injective (hinj hhash)
      rw [String.toList_inj.1 htext]

/-- Where the listings agree on an entry, so do the stamps. -/
theorem stampAt_eq_of_treeText_eq (hinj : Function.Injective sha256) {n : Tree}
    {path : List String}
    (h : (b.node? path).bind (treeText sha256) = (n.node? path).bind (treeText sha256)) :
    stampAt? b path = stampAt? n path := by
  have htext : ∀ t : Tree, (t.node? path).bind (treeText sha256) =
      (stampAt? t path).map (Stamp.text sha256) := by
    intro t
    unfold stampAt?
    rw [Option.map_bind]
    exact congrArg _ (funext treeText_eq)
  rw [htext, htext] at h
  exact Option.map_injective (Stamp.text_injective hinj) h

/-! ## What an answer says -/

/-- The keys of `reads`. -/
def RootEvidence.readKeys (r : RootEvidence) : List String := (r.reads.getD []).map Prod.fst

/-- A root under which what was read is as it was. -/
structure FreshReads (b n : Tree) (r : RootEvidence) : Prop where
  dir : n.isDir = true
  files : ∀ entry ∈ r.readKeys, isDirEntry entry = false → SameFile b n (entryPath entry)
  names : ∀ entry ∈ r.readKeys, isDirEntry entry = true → OneLine b (entryPath entry) →
    OneLine n (entryPath entry) → SameNames b n (entryPath entry)
  unlinked : ∀ entry ∈ r.readKeys, ∀ above, above <+: entryPath entry →
    ∀ target, n.node? above ≠ some (.link target)

/-- A root under which every file that was not read, and every link, has its stamp. -/
structure SameTree (b n : Tree) (r : RootEvidence) : Prop where
  stamps : ∀ path, Walked path → relFrom "" path ∉ r.readKeys → stampAt? b path = stampAt? n path
  leaves : ∀ path, Walked path → (stampAt? b path).isSome = (stampAt? n path).isSome

theorem Evidenced.readKeys_eq (h : Evidenced sha256 b r reads) :
    r.readKeys = reads.map Prod.fst := by
  rw [RootEvidence.readKeys, h.observed, Option.getD_some]

/-- Nothing is under a path that no directory can hold. -/
theorem stampAt_eq_none {path : List String} (h : ¬∀ name ∈ path, IsEntryName name) :
    stampAt? t path = none := by
  rw [stampAt?, Option.bind_eq_none_iff]
  intro node hnode
  exact absurd (DirTree.proper_of_node? hnode) h

theorem checkRoot_ok {c : RootCheck} (h : checkRoot sha256 disk r = .ok c) :
    isRealDirectory disk r.root = false ∧ c.changedReads = [r.root] ∨
      ∃ n now changed, disk r.root = some n ∧ n.isDir = true ∧
        changedEntries sha256 disk r.root (r.reads.getD []) = .ok changed ∧
        scan sha256 disk r.root = .ok now ∧ c.changedReads = changed.map (joinPath r.root) ∧
        c.changedOutside = ((differingKeys r.tree now.tree).filter fun rel =>
          ((r.reads.getD []).lookup rel).isNone).map (joinPath r.root) := by
  unfold checkRoot at h
  cases hroot : isRealDirectory disk r.root with
  | false =>
    rw [hroot, Bool.not_false, if_pos rfl] at h
    cases h
    exact .inl ⟨rfl, rfl⟩
  | true =>
    rw [hroot, Bool.not_true, if_neg Bool.false_ne_true] at h
    obtain ⟨changed, hchanged, h⟩ := except_bind_ok h
    obtain ⟨now, hnow, h⟩ := except_bind_ok h
    cases h
    unfold isRealDirectory at hroot
    cases hn : disk r.root with
    | none =>
      rw [hn] at hroot
      cases hroot
    | some n =>
      rw [hn] at hroot
      exact .inr ⟨n, now, changed, rfl, hroot, hchanged, hnow, rfl, rfl⟩

/-- An entry that is not among the changed ones has its fingerprint, and the others have not. -/
theorem mem_changedEntries {changed : List String}
    (h : changedEntries sha256 disk root reads = .ok changed) {e : String × String}
    (he : e ∈ reads) :
    ∃ print, fingerprintAt sha256 disk root e.1 = .ok print ∧ (print ≠ e.2 → e.1 ∈ changed) := by
  obtain ⟨prints, hprints, h⟩ := except_bind_ok h
  cases h
  obtain ⟨p, hp, hmap⟩ := mem_of_mapM_ok hprints he
  obtain ⟨print, hprint, rfl⟩ := except_map_ok hmap
  refine ⟨print, hprint, fun hne => ?_⟩
  exact List.mem_map.2 ⟨(e, print), List.mem_filter.2 ⟨hp, by simpa using hne⟩, rfl⟩

theorem origin_of_changedEntries {changed : List String}
    (h : changedEntries sha256 disk root reads = .ok changed) {entry : String}
    (hentry : entry ∈ changed) :
    ∃ e ∈ reads, e.1 = entry ∧ ∃ print, fingerprintAt sha256 disk root entry = .ok print ∧
      print ≠ e.2 := by
  obtain ⟨prints, hprints, h⟩ := except_bind_ok h
  cases h
  obtain ⟨p, hp, rfl⟩ := List.mem_map.1 hentry
  obtain ⟨hp, hne⟩ := List.mem_filter.1 hp
  obtain ⟨e, he, hmap⟩ := origin_of_mapM_ok hprints hp
  obtain ⟨print, hprint, rfl⟩ := except_map_ok hmap
  exact ⟨e, he, rfl, print, hprint, by simpa using hne⟩

theorem not_link_of_isDir (h : t.isDir = true) : t.isLink = false := by
  cases t with
  | link => cases h
  | _ => rfl

section

variable (hinj : Function.Injective sha256)
variable (hmark : ∀ bytes, sha256 bytes ≠ "missing" ∧ sha256 bytes ≠ "symbolic_link")
include hinj hmark

variable {r : RootEvidence} {disk : Disk}

variable {b : Tree} {reads : Record}

/-- An unchanged fingerprint is of unchanged data. -/
theorem Evidenced.digested {n : Tree} (h : Evidenced sha256 b r reads) (hn : disk r.root = some n)
    (hdir : n.isDir = true) {e : String × String} (he : e ∈ reads)
    (hsame : fingerprintAt sha256 disk r.root e.1 = .ok e.2) :
    ∃ data, digested? b e.1 = some data ∧ digested? n e.1 = some data := by
  obtain ⟨hrecorded, data, hdata, hprint⟩ := h.entries e he
  unfold fingerprintAt at hsame
  rw [hn, hprint] at hsame
  rcases fingerprint_ok (not_link_of_isDir hdir) hrecorded.proper hsame with
    hmarked | hmarked | ⟨data', hdata', heq⟩
  · exact absurd hmarked (hmark data).2
  · exact absurd hmarked (hmark data).1
  · exact ⟨data, hdata, hinj heq ▸ hdata'⟩

/-- No changed read under a root: what was read there is as it was. -/
theorem Evidenced.freshReads {c : RootCheck} (h : Evidenced sha256 b r reads)
    (hc : checkRoot sha256 disk r = .ok c) (hnone : c.changedReads = []) :
    ∃ n, disk r.root = some n ∧ FreshReads b n r := by
  rcases checkRoot_ok hc with ⟨-, hroot⟩ | ⟨n, now, changed, hn, hdir, hchanged, -, hreads, -⟩
  · rw [hroot] at hnone
    cases hnone
  · rw [hreads, List.map_eq_nil_iff] at hnone
    subst hnone
    rw [h.observed, Option.getD_some] at hchanged
    -- every recorded entry has its data in both trees
    have hdata : ∀ entry ∈ r.readKeys, Recorded b entry ∧
        ∃ data, digested? b entry = some data ∧ digested? n entry = some data := by
      intro entry hentry
      rw [h.readKeys_eq] at hentry
      obtain ⟨e, he, rfl⟩ := List.mem_map.1 hentry
      obtain ⟨print, hprint, hne⟩ := mem_changedEntries hchanged he
      have hsame : print = e.2 := by
        by_contra hother
        cases hne hother
      rw [hsame] at hprint
      exact ⟨(h.entries e he).1, h.digested hinj hmark hn hdir he hprint⟩
    refine ⟨n, hn, hdir, ?_, ?_, ?_⟩
    · intro entry hentry hfile
      obtain ⟨-, data, hb, hn'⟩ := hdata entry hentry
      exact sameFile_of_digested hfile hb hn'
    · intro entry hentry hentrydir hbline hnline
      obtain ⟨hrecorded, data, hb, hn'⟩ := hdata entry hentry
      exact sameNames_of_digested hrecorded hentrydir hb hn' hbline hnline
    · intro entry hentry above habove target hlink
      obtain ⟨-, data, -, hn'⟩ := hdata entry hentry
      obtain ⟨node, hnode, hof⟩ := Option.bind_eq_some_iff.1 hn'
      obtain ⟨rest, hrest⟩ := habove
      rw [← hrest] at hnode
      by_cases hend : rest = []
      · rw [hend, List.append_nil, hlink] at hnode
        cases hnode
        cases hof
      · cases DirTree.isDir_above hend hnode hlink

/-- Nothing changed under a root: the stamps of what was not read are as they were. -/
theorem Evidenced.sameTree {c : RootCheck} (h : Evidenced sha256 b r reads)
    (hc : checkRoot sha256 disk r = .ok c) (hnone : c.changedReads = [])
    (hquiet : c.changedOutside = []) : ∃ n, disk r.root = some n ∧ SameTree b n r := by
  obtain ⟨n, hn, hfresh⟩ := h.freshReads hinj hmark hc hnone
  rcases checkRoot_ok hc with ⟨-, hroot⟩ | ⟨n', now, changed, hn', -, -, hnow, -, houtside⟩
  · rw [hroot] at hnone
    cases hnone
  · rw [houtside, List.map_eq_nil_iff] at hquiet
    have hstamps : ∀ path, Walked path → relFrom "" path ∉ r.readKeys →
        stampAt? b path = stampAt? n path := by
      intro path hwalked hunread
      by_cases hproper : ∀ name ∈ path, IsEntryName name
      · apply stampAt_eq_of_treeText_eq hinj
        rw [← h.tree path hproper hwalked, ← lookup_scan_tree hnow hn hproper hwalked]
        apply lookup_eq_of_not_differing
        intro hdiffers
        have hmem : relFrom "" path ∈ (differingKeys r.tree now.tree).filter fun rel =>
            ((r.reads.getD []).lookup rel).isNone := by
          refine List.mem_filter.2 ⟨hdiffers, ?_⟩
          rw [Option.isNone_iff_eq_none, ← Option.not_isSome_iff_eq_none, lookup_isSome]
          exact hunread
        rw [hquiet] at hmem
        cases hmem
      · rw [stampAt_eq_none hproper, stampAt_eq_none hproper]
    refine ⟨n, hn, hstamps, ?_⟩
    intro path hwalked
    by_cases hread : relFrom "" path ∈ r.readKeys
    · -- a file that was read is a file in both trees
      by_cases hproper : ∀ name ∈ path, IsEntryName name
      · have hfile := hfresh.files _ hread (isDirEntry_file hproper)
        rw [entryPath_file hproper] at hfile
        obtain ⟨i, j, bytes, hi, -, hj, -⟩ := hfile
        rw [stampAt?, hi, stampAt?, hj]
        rfl
      · rw [stampAt_eq_none hproper, stampAt_eq_none hproper]
    · rw [hstamps path hwalked hread]

end

/-- A changed read under a root: it is no directory any more, or an entry is not as it was. -/
theorem Evidenced.changed {c : RootCheck} (h : Evidenced sha256 b r reads)
    (hc : checkRoot sha256 disk r = .ok c) (hsome : c.changedReads ≠ []) :
    isRealDirectory disk r.root = false ∨
      ∃ n, disk r.root = some n ∧ ∃ entry ∈ r.readKeys, ¬SameRead b n entry := by
  rcases checkRoot_ok hc with ⟨hroot, -⟩ | ⟨n, now, changed, hn, hdir, hchanged, -, hreads, -⟩
  · exact .inl hroot
  · refine .inr ⟨n, hn, ?_⟩
    rw [hreads, ne_eq, List.map_eq_nil_iff] at hsome
    obtain ⟨entry, hentry⟩ := List.exists_mem_of_ne_nil _ hsome
    rw [h.observed, Option.getD_some] at hchanged
    obtain ⟨e, he, rfl, print, hprint, hne⟩ := origin_of_changedEntries hchanged hentry
    refine ⟨e.1, h.readKeys_eq ▸ List.mem_map_of_mem he, fun hsame => hne ?_⟩
    obtain ⟨hrecorded, data, hdata, hprint'⟩ := h.entries e he
    unfold fingerprintAt at hprint
    rw [hn] at hprint
    rw [hprint', fingerprint_of_digested (not_link_of_isDir hdir)
      (digested_of_sameRead hrecorded hdata hsame) hprint]

/-! ## The answer for what was collected -/

theorem statusOf_fresh {statCaches : StatCaches} {checks : List RootCheck} {basis : Basis}
    (h : statusOf statCaches checks = .fresh basis) :
    (∀ c ∈ checks, c.changedReads = []) ∧
      (basis = .treeUnchanged → ∀ c ∈ checks, c.changedOutside = []) := by
  unfold statusOf at h
  dsimp only at h
  split at h
  · cases h
  · rename_i hreads
    refine ⟨fun c hc => List.flatMap_eq_nil_iff.1 (not_not.1 hreads) c hc, ?_⟩
    rintro rfl
    split at h
    · rename_i houtside
      exact fun c hc => List.flatMap_eq_nil_iff.1 houtside c hc
    · split at h
      · cases h
      · split at h
        · cases h
        · cases h

theorem statusOf_stale {statCaches : StatCaches} {checks : List RootCheck} {changed : Limited}
    (h : statusOf statCaches checks = .stale changed) : ∃ c ∈ checks, c.changedReads ≠ [] := by
  by_contra hnone
  push Not at hnone
  have hreads : checks.flatMap RootCheck.changedReads = [] := List.flatMap_eq_nil_iff.2 hnone
  unfold statusOf at h
  dsimp only at h
  rw [hreads, if_neg (not_not.2 rfl)] at h
  split at h
  · cases h
  · split at h
    · cases h
    · split at h <;> cases h

/-- An answer that is not `unknown` is the one of the evidence file. -/
theorem evaluateReadEvidence_ok {artifacts : String → Except ArtifactError EvidenceFile}
    {status : EvidenceStatus}
    (h : evaluateReadEvidence sha256 artifacts disk (some evidence) = .ok status) :
    (∃ reason outside, status = .unknown reason outside) ∨
      ∃ ref file checks, evidence.ref = some ref ∧ artifacts ref = .ok file ∧
        file.roots.mapM (checkRoot sha256 disk) = .ok checks ∧
        status = statusOf file.statCaches checks := by
  rw [evaluateReadEvidence] at h
  split at h
  · rename_i ref hfailed href
    have hgiven : evidence.ref = some ref := (Option.filter_eq_some_iff.1 href).1
    split at h
    · cases h
      exact .inl ⟨_, _, rfl⟩
    · cases h
      exact .inl ⟨_, _, rfl⟩
    · rename_i file hfile
      split at h
      · cases h
        exact .inl ⟨_, _, rfl⟩
      · obtain ⟨checks, hchecks, hstatus⟩ := except_map_ok h
        exact .inr ⟨ref, file, checks, hgiven, hfile, hchecks, hstatus.symm⟩
  · cases h
    exact .inl ⟨_, _, rfl⟩

variable {file : EvidenceFile}

theorem collect_ok
    (h : s.collect sha256 disk ref stored = (evidence, some file)) :
    s.roots.mapM (collectRoot sha256 s disk) = .ok file.roots ∧ evidence.ref = some ref ∧
      (evidence.tracking = .atime → ∀ r ∈ file.roots, r.reads.isSome = true) := by
  unfold Session.collect at h
  split at h
  · rename_i perRoot hroots
    cases h
    refine ⟨hroots, rfl, ?_⟩
    intro htracking
    dsimp only at htracking
    split at htracking
    · rename_i htracked
      exact List.all_eq_true.1 htracked
    · cases htracking
  · cases h
  · cases h

/-- Every root has its evidence, collected from the tree that stood there. -/
theorem collect_evidenced
    (h : s.collect sha256 disk ref stored = (evidence, some file))
    (hatime : evidence.tracking = .atime) (hr : r ∈ file.roots) :
    ∃ b reads, disk r.root = some b ∧ Evidenced sha256 b r reads := by
  obtain ⟨hroots, -, hreads⟩ := collect_ok h
  obtain ⟨root, -, hcollect⟩ := origin_of_mapM_ok hroots hr
  obtain ⟨rfl, b, reads, hb, hevidenced⟩ := collectRoot_evidenced hcollect (hreads hatime r hr)
  exact ⟨b, reads, hb, hevidenced⟩

/-- The evidence file as it was written is accepted and evaluated. -/
theorem evaluateReadEvidence_collected {before after : Disk}
    (h : s.collect sha256 before ref stored = (evidence, some file)) (href : ref ≠ "")
    {artifacts : String → Except ArtifactError EvidenceFile} (hkept : artifacts ref = .ok file) :
    evaluateReadEvidence sha256 artifacts after (some evidence) =
      (file.roots.mapM (checkRoot sha256 after)).map (statusOf file.statCaches) := by
  unfold Session.collect at h
  split at h
  · cases h
    have hgiven : nonEmpty (some ref) = some ref := by
      rw [nonEmpty, Option.filter_some, if_pos (decide_eq_true href)]
    rw [evaluateReadEvidence]
    split
    · rename_i ref' hfailed href'
      obtain rfl : ref = ref' := Option.some.inj (hgiven.symm.trans href')
      rw [hkept]
      exact if_neg (not_not.2 rfl)
    · rename_i hother
      refine absurd hgiven (hother ref ?_)
      split <;> rfl
  · cases h
  · cases h

/-- What an answer says of the trees at the roots, when every read was observed and the evidence
    file is gone, unreadable or as it was written. -/
theorem evaluateReadEvidence_sound (hinj : Function.Injective sha256)
    (hmark : ∀ bytes, sha256 bytes ≠ "missing" ∧ sha256 bytes ≠ "symbolic_link")
    {s : Session} {before after : Disk} {ref : String} {stored : Except Failure Unit}
    {evidence : ReadEvidence} {file : EvidenceFile}
    (hcollect : s.collect sha256 before ref stored = (evidence, some file))
    (hatime : evidence.tracking = .atime)
    {artifacts : String → Except ArtifactError EvidenceFile}
    (hkept : ∀ kept, artifacts ref = .ok kept → kept = file) {status : EvidenceStatus}
    (heval : evaluateReadEvidence sha256 artifacts after (some evidence) = .ok status) :
    file.roots.map RootEvidence.root = s.roots ∧
    (∀ basis, status = .fresh basis → ∀ r ∈ file.roots,
      ∃ b n, before r.root = some b ∧ after r.root = some n ∧ FreshReads b n r) ∧
    (status = .fresh .treeUnchanged → ∀ r ∈ file.roots,
      ∃ b n, before r.root = some b ∧ after r.root = some n ∧ SameTree b n r) ∧
    (∀ changed, status = .stale changed → ∃ r ∈ file.roots,
      isRealDirectory after r.root = false ∨
        ∃ b n, before r.root = some b ∧ after r.root = some n ∧
          ∃ entry ∈ r.readKeys, ¬SameRead b n entry) := by
  have hroots : file.roots.map RootEvidence.root = s.roots := by
    rw [map_of_mapM_ok (fun _ _ => collectRoot_root) (collect_ok hcollect).1, List.map_id']
  refine ⟨hroots, ?_⟩
  obtain ⟨reason, outside, hunknown⟩ | ⟨ref', kept, checks, hgiven, hread, hchecks, hstatus⟩ :=
    evaluateReadEvidence_ok heval
  · rw [hunknown]
    refine ⟨?_, ?_, ?_⟩
    · intro basis h
      cases h
    · intro h
      cases h
    · intro changed h
      cases h
  · obtain ⟨-, href, -⟩ := collect_ok hcollect
    obtain rfl : ref = ref' := Option.some.inj (href.symm.trans hgiven)
    obtain rfl := hkept kept hread
    refine ⟨?_, ?_, ?_⟩
    · intro basis hfresh r hr
      obtain ⟨hreads, -⟩ := statusOf_fresh (hstatus.symm.trans hfresh)
      obtain ⟨b, reads, hb, hevidenced⟩ := collect_evidenced hcollect hatime hr
      obtain ⟨c, hc, hcheck⟩ := mem_of_mapM_ok hchecks hr
      obtain ⟨n, hn, hsame⟩ := hevidenced.freshReads hinj hmark hcheck (hreads c hc)
      exact ⟨b, n, hb, hn, hsame⟩
    · intro hfresh r hr
      obtain ⟨hreads, houtside⟩ := statusOf_fresh (hstatus.symm.trans hfresh)
      obtain ⟨b, reads, hb, hevidenced⟩ := collect_evidenced hcollect hatime hr
      obtain ⟨c, hc, hcheck⟩ := mem_of_mapM_ok hchecks hr
      obtain ⟨n, hn, hsame⟩ := hevidenced.sameTree hinj hmark hcheck (hreads c hc)
        (houtside rfl c hc)
      exact ⟨b, n, hb, hn, hsame⟩
    · intro changed hstale
      obtain ⟨c, hc, hsome⟩ := statusOf_stale (hstatus.symm.trans hstale)
      obtain ⟨r, hr, hcheck⟩ := origin_of_mapM_ok hchecks hc
      obtain ⟨b, reads, hb, hevidenced⟩ := collect_evidenced hcollect hatime hr
      rcases hevidenced.changed hcheck hsome with hroot | ⟨n, hn, entry, hentry, hother⟩
      · exact ⟨r, hr, .inl hroot⟩
      · exact ⟨r, hr, .inr ⟨b, n, hb, hn, entry, hentry, hother⟩⟩

end

/-! ## A tracked directory -/

/-- A digest that is the bytes themselves, behind a mark. -/
def markedDigest (bytes : List UInt8) : String := "#" ++ plainDigest bytes

theorem markedDigest_injective : Function.Injective markedDigest := fun _ _ heq =>
  plainDigest_injective ((String.append_right_inj "#").1 heq)

theorem markedDigest_unmarked (bytes : List UInt8) :
    markedDigest bytes ≠ "missing" ∧ markedDigest bytes ≠ "symbolic_link" := by
  have hfirst : (markedDigest bytes).toList.head? = some '#' := by
    rw [markedDigest, String.toList_append]
    rfl
  constructor
  · intro heq
    rw [heq] at hfirst
    exact absurd hfirst (by decide)
  · intro heq
    rw [heq] at hfirst
    exact absurd hfirst (by decide)

def noNames : Names := ⟨[], List.nodup_nil, fun _ h => by cases h⟩
def oneName : Names := ⟨["a"], List.nodup_singleton _, by decide⟩
def twoNames : Names := ⟨["a", ".git"], by decide, by decide⟩

/-- A directory that was listed, with files of one byte that were read. -/
def workTree (names : Names) (mtimeNs : Int) : Tree :=
  .dir { stat := ⟨0, 10, 5⟩ } names fun _ => .file ⟨⟨1, 10, mtimeNs⟩, some [7]⟩

/-- A directory in which nothing was read. -/
def idleTree : Tree := .dir { stat := ⟨0, 3, 5⟩ } noNames fun _ => .link ""

def workSession : Session where
  opId := "check"
  roots := ["/work"]
  busy := false
  statCaches := .possible
  observed := fun root => root == "/work"

/-- What is kept of the reads under `/work`. -/
def workFile (reads tree : Record) : EvidenceFile where
  opId := "check"
  statCaches := .possible
  roots := [⟨"/work", some reads, some [], tree⟩]

def workEvidence (t : Tree) : ReadEvidence :=
  (workSession.collect markedDigest (fun _ => some t) "reads" (.ok ())).1

theorem collect_workTree :
    workSession.collect markedDigest (fun _ => some (workTree oneName 5)) "reads" (.ok ()) =
      (workEvidence (workTree oneName 5),
        some (workFile [("./", "#a"), ("a", "#\x07")] [("a", "1:5")])) := Prod.ext rfl rfl

theorem collect_idleTree :
    workSession.collect markedDigest (fun _ => some idleTree) "reads" (.ok ()) =
      (workEvidence idleTree, some (workFile [] [])) := Prod.ext rfl rfl

theorem workTree_unchanged_fresh :
    ∃ b n, some (workTree oneName 5) = some b ∧ some (workTree oneName 5) = some n ∧
      SameTree b n ⟨"/work", some [("./", "#a"), ("a", "#\x07")], some [], [("a", "1:5")]⟩ := by
  have heval : evaluateReadEvidence markedDigest
      (fun _ => .ok (workFile [("./", "#a"), ("a", "#\x07")] [("a", "1:5")]))
      (fun _ => some (workTree oneName 5)) (some (workEvidence (workTree oneName 5))) =
        .ok (.fresh .treeUnchanged) := by
    rw [evaluateReadEvidence_collected collect_workTree (by decide) rfl]
    rfl
  exact (evaluateReadEvidence_sound markedDigest_injective markedDigest_unmarked collect_workTree rfl
    (fun _ h => (Except.ok.inj h).symm) heval).2.2.1 rfl _ List.mem_cons_self

/-- A file that was read is touched and a `.git` file appears: the answer is that nothing
    changed.  A root under which nothing was read is gone: the answer is that a read changed. -/
theorem touched_fresh_and_gone_stale :
    (evaluateReadEvidence markedDigest
        (fun _ => .ok (workFile [("./", "#a"), ("a", "#\x07")] [("a", "1:5")]))
        (fun _ => some (workTree twoNames 6)) (some (workEvidence (workTree oneName 5))) =
          .ok (.fresh .treeUnchanged) ∧
      stampAt? (workTree oneName 5) ["a"] = some (.file 1 5) ∧
      stampAt? (workTree twoNames 6) ["a"] = some (.file 1 6) ∧
      stampAt? (workTree oneName 5) [".git"] = none ∧
      stampAt? (workTree twoNames 6) [".git"] = some (.file 1 6) ∧
      ¬(∀ name, name ∈ oneName.list ↔ name ∈ twoNames.list)) ∧
    (evaluateReadEvidence markedDigest (fun _ => .ok (workFile [] [])) (fun _ => none)
        (some (workEvidence idleTree)) = .ok (.stale ⟨["/work"], false⟩) ∧
      ∀ r ∈ (workFile [] []).roots, r.readKeys = []) := by
  refine ⟨⟨?_, rfl, rfl, rfl, rfl, ?_⟩, ?_, ?_⟩
  · rw [evaluateReadEvidence_collected collect_workTree (by decide) rfl]
    rfl
  · intro hsame
    have hgit : ".git" ∈ oneName.list := (hsame ".git").2 (by decide)
    exact absurd hgit (by decide)
  · rw [evaluateReadEvidence_collected collect_idleTree (by decide) rfl]
    rfl
  · intro r hr
    rw [List.mem_singleton.1 hr]
    rfl

end ReadTracker
end XioFlow
