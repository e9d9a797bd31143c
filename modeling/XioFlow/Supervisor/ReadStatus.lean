/-
  XioFlow.Supervisor.ReadStatus

  What the answer about read evidence says of the tree.

  A fingerprint stands for the data that it is the digest of: the bytes of a
  file, or the sorted names of a directory joined by newlines.  Names with a
  newline in them may join to the same text as other names, so for those the
  text is all that is compared.
-/

import XioFlow.Supervisor.ReadTracker

namespace XioFlow

open Lib Lib.JsonText

namespace ReadTracker

/-! ## Paths and entries -/

/-- The entry is not under a name that is skipped in the root. -/
def Walked (path : List String) : Prop := ∀ name, path.head? = some name → name ∉ skipTop

/-- The names on the way to an entry, as `fingerprint` takes it. -/
def entryPath (entry : String) : List String := if entry = "./" then [] else pathNames entry

/-- The entry of a directory. -/
def dirEntry (rel : String) : String := (if rel = "" then "." else rel) ++ "/"

variable {name rel : String} {t n : Tree} {key : String}

theorem childRel_ne_empty (h : IsEntryName name) (rel : String) : childRel rel name ≠ "" := by
  intro heq
  have hnames := pathNames_childRel rel h
  rw [heq, pathNames_empty] at hnames
  exact absurd hnames.symm (List.append_ne_nil_of_right_ne_nil _ (List.cons_ne_nil _ _))

theorem pathNames_dotSlash : pathNames "./" = ["."] := by decide

theorem not_isEntryName_dot : ¬IsEntryName "." := by decide

variable {path : List String} {visits : List Visit}

theorem pathNames_ne_dot (h : ∀ name ∈ path, IsEntryName name) : path ≠ ["."] := by
  rintro rfl
  exact not_isEntryName_dot (h "." List.mem_cons_self)

theorem pathNames_root (h : ∀ name ∈ path, IsEntryName name) :
    pathNames (relFrom "" path) = path := by
  rw [pathNames_relFrom h, pathNames_empty, List.nil_append]

theorem entryPath_file (h : ∀ name ∈ path, IsEntryName name) :
    entryPath (relFrom "" path) = path := by
  have hne : relFrom "" path ≠ "./" := by
    intro heq
    have hnames := pathNames_root h
    rw [heq, pathNames_dotSlash] at hnames
    exact pathNames_ne_dot h hnames.symm
  rw [entryPath, if_neg hne, pathNames_root h]

theorem pathNames_closed (rel : String) : pathNames (rel ++ "/") = pathNames rel := by
  have hslash := pathNames_slash rel ""
  rw [pathNames_empty, List.append_nil, String.append_empty] at hslash
  exact hslash

theorem entryPath_dir (h : ∀ name ∈ path, IsEntryName name) :
    entryPath (dirEntry (relFrom "" path)) = path := by
  unfold dirEntry
  split
  · rename_i hroot
    have hnames := pathNames_root h
    rw [hroot, pathNames_empty] at hnames
    exact hnames
  · rename_i hrel
    have hne : relFrom "" path ++ "/" ≠ "./" := by
      intro heq
      have hnames := pathNames_closed (relFrom "" path)
      rw [heq, pathNames_dotSlash, pathNames_root h] at hnames
      exact pathNames_ne_dot h hnames.symm
    rw [entryPath, if_neg hne, pathNames_closed, pathNames_root h]

theorem isDirEntry_dirEntry (rel : String) : isDirEntry (dirEntry rel) = true := by
  have hslash : ("/" : String).toList = ['/'] := rfl
  unfold isDirEntry dirEntry
  rw [String.toList_append, hslash, List.getLast?_append_of_ne_nil _ (List.cons_ne_nil _ _)]
  rfl

theorem getLast?_childRel (h : name.toList ≠ []) (rel : String) :
    (childRel rel name).toList.getLast? = name.toList.getLast? := by
  unfold childRel
  split
  · rfl
  · rw [String.toList_append, List.getLast?_append_of_ne_nil _ h]

theorem isDirEntry_file (h : ∀ name ∈ path, IsEntryName name) :
    isDirEntry (relFrom "" path) = false := by
  unfold isDirEntry
  rcases List.eq_nil_or_concat path with rfl | ⟨init, name, rfl⟩
  · rfl
  · -- the last character is one of the last name
    have hname : IsEntryName name := h name (by simp)
    have hlast : (relFrom "" (init ++ [name])).toList.getLast? = name.toList.getLast? := by
      have hstep : relFrom "" (init ++ [name]) = childRel (relFrom "" init) name :=
        List.foldl_concat _ _ _ _
      rw [hstep, getLast?_childRel hname.1.1]
    rw [List.concat_eq_append, hlast, beq_eq_false_iff_ne]
    intro heq
    exact hname.2 (List.mem_of_getLast? heq)

/-! ## What a walk comes to -/

theorem walk_dir_ok {info : DirInfo} {names : Names} {child : String → Tree}
    (h : walk (.dir info names child) rel = .ok visits) :
    ∃ below, ((walkedNames rel names).mapM fun name =>
        if !info.searchable then .error .eacces else walk (child name) (childRel rel name)) =
          .ok below ∧
      visits = ⟨rel, .dir info names child⟩ :: below.flatten := by
  rw [walk] at h
  split at h
  · cases h
  · obtain ⟨below, hbelow, h⟩ := except_bind_ok h
    cases h
    exact ⟨below, hbelow, rfl⟩

theorem walk_child_ok {info : DirInfo}
    (h : (if !info.searchable then .error .eacces else walk t rel) = .ok visits) :
    walk t rel = .ok visits := by
  split at h
  · cases h
  · exact h

theorem mem_walkedNames {names : Names} :
    name ∈ walkedNames rel names ↔ name ∈ names.list ∧ (rel = "" → name ∉ skipTop) := by
  unfold walkedNames
  rw [List.mem_filter]
  by_cases hroot : rel = "" <;> simp [hroot]

theorem mem_walk_leaf (ht : t.isDir = false) {v : Visit} :
    v ∈ [(⟨rel, t⟩ : Visit)] ↔ ∃ path, v.rel = relFrom rel path ∧ t.node? path = some v.node ∧
      (rel = "" → Walked path) := by
  rw [List.mem_singleton]
  constructor
  · rintro rfl
    exact ⟨[], rfl, DirTree.node?_nil t, fun _ name hname => by cases hname⟩
  · rintro ⟨path, hrel, hnode, -⟩
    obtain ⟨rfl, hself⟩ := (DirTree.node?_leaf ht).1 hnode
    cases v
    cases hrel
    cases hself
    rfl

/-- A walk comes to every entry below, and to nothing else. -/
theorem mem_walk (h : walk t rel = .ok visits) {v : Visit} :
    v ∈ visits ↔ ∃ path, v.rel = relFrom rel path ∧ t.node? path = some v.node ∧
      (rel = "" → Walked path) := by
  -- induction on the tree: the path to an entry begins with a name of the directory
  induction t generalizing rel visits v with
  | file | link =>
    cases h
    exact mem_walk_leaf rfl
  | dir info names child ih =>
    obtain ⟨below, hbelow, rfl⟩ := walk_dir_ok h
    rw [List.mem_cons, List.mem_flatten]
    constructor
    · rintro (rfl | ⟨sub, hsub, hv⟩)
      · exact ⟨[], rfl, rfl, fun _ name hname => by cases hname⟩
      · obtain ⟨name, hname, hwalk⟩ := origin_of_mapM_ok hbelow hsub
        obtain ⟨hlisted, htop⟩ := mem_walkedNames.1 hname
        obtain ⟨path, hrel, hnode, -⟩ := (ih name (walk_child_ok hwalk)).1 hv
        refine ⟨name :: path, hrel, ?_, ?_⟩
        · exact DirTree.node?_cons.2 ⟨info, names, child, rfl, hlisted, hnode⟩
        · intro hroot first hfirst
          cases hfirst
          exact htop hroot
    · rintro ⟨path, hrel, hnode, hwalked⟩
      cases path with
      | nil =>
        refine .inl ?_
        cases v
        cases hrel
        cases hnode
        rfl
      | cons name path =>
        obtain ⟨_, _, _, heq, hlisted, hrest⟩ := DirTree.node?_cons.1 hnode
        cases heq
        have hname : name ∈ walkedNames rel names :=
          mem_walkedNames.2 ⟨hlisted, fun hroot => hwalked hroot name rfl⟩
        obtain ⟨sub, hsub, hwalk⟩ := mem_of_mapM_ok hbelow hname
        have hchild : childRel rel name ≠ "" := childRel_ne_empty (names.proper name hlisted) rel
        exact .inr ⟨sub, hsub, (ih name (walk_child_ok hwalk)).2
          ⟨path, hrel, hrest, fun hempty => absurd hempty hchild⟩⟩

/-! ## Going down to an entry -/

theorem lstatIn_ok (hname : IsEntryName name) (h : lstatIn t name = .ok n) :
    t.node? [name] = some n := by
  have hdot : name ≠ "." := by
    rintro rfl
    exact not_isEntryName_dot hname
  unfold lstatIn at h
  rw [if_neg hdot] at h
  cases t with
  | file => cases h
  | link => cases h
  | dir info names child =>
    dsimp only at h
    split at h
    · cases h
    · split at h
      · rename_i hlisted
        cases h
        exact DirTree.node?_cons.2 ⟨info, names, child, rfl, hlisted, DirTree.node?_nil _⟩
      · cases h

theorem follow_cons_ok {part : String} {parts : List String} {r : Option Tree}
    (h : follow t (part :: parts) = .ok r) :
    ∃ below, lstatIn t part = .ok below ∧
      (below.isLink = true ∧ r = none ∨ below.isLink = false ∧ follow below parts = .ok r) := by
  rw [follow] at h
  obtain ⟨below, hbelow, h⟩ := except_bind_ok h
  refine ⟨below, hbelow, ?_⟩
  cases hlink : below.isLink with
  | true =>
    rw [hlink, if_pos rfl] at h
    cases h
    exact .inl ⟨rfl, rfl⟩
  | false =>
    rw [hlink, if_neg Bool.false_ne_true] at h
    exact .inr ⟨rfl, h⟩

/-- What is reached by names stands there, and no link stands on the way. -/
theorem node_of_follow (hpath : ∀ name ∈ path, IsEntryName name)
    (h : follow t path = .ok (some n)) : t.node? path = some n := by
  induction path generalizing t with
  | nil =>
    cases h
    exact DirTree.node?_nil _
  | cons name path ih =>
    obtain ⟨hname, hrest⟩ := List.forall_mem_cons.1 hpath
    obtain ⟨below, hbelow, ⟨-, hr⟩ | ⟨-, hfollow⟩⟩ := follow_cons_ok h
    · cases hr
    · have hstep : t.node? [name] = some below := lstatIn_ok hname hbelow
      exact DirTree.node?_append.2 ⟨below, hstep, ih hrest hfollow⟩

/-- An entry that is there is reached, unless looking it up is refused. -/
theorem follow_of_node (hnode : t.node? path = some n) (hlink : n.isLink = false) :
    follow t path = .ok (some n) ∨ follow t path = .error .eacces := by
  induction path generalizing t with
  | nil =>
    rw [DirTree.node?_nil] at hnode
    cases hnode
    exact .inl rfl
  | cons name path ih =>
    obtain ⟨info, names, child, rfl, hlisted, hrest⟩ := DirTree.node?_cons.1 hnode
    have hdot : name ≠ "." := by
      rintro rfl
      exact not_isEntryName_dot (names.proper "." hlisted)
    -- what is below is no link: it is the entry itself or a directory above it
    have hbelow : (child name).isLink = false := by
      cases hchild : child name with
      | link =>
        rw [hchild] at hrest
        obtain ⟨-, rfl⟩ := (DirTree.node?_leaf rfl).1 hrest
        exact hlink
      | file => rfl
      | dir => rfl
    by_cases hsearch : info.searchable = true
    · have hstat : lstatIn (.dir info names child) name = .ok (child name) := by
        unfold lstatIn
        rw [if_neg hdot]
        dsimp only
        rw [hsearch, if_neg (by decide), if_pos hlisted]
      have hstep : follow (.dir info names child) (name :: path) = follow (child name) path := by
        rw [follow, hstat]
        show (if (child name).isLink then pure none else follow (child name) path) = _
        rw [hbelow, if_neg Bool.false_ne_true]
      rw [hstep]
      exact ih hrest
    · have hstat : lstatIn (.dir info names child) name = .error .eacces := by
        unfold lstatIn
        rw [if_neg hdot]
        dsimp only
        rw [Bool.eq_false_iff.2 hsearch, Bool.not_false, if_pos rfl]
      refine .inr ?_
      rw [follow, hstat]
      rfl

/-- The root goes by `./`. -/
theorem follow_entryPath (ht : t.isLink = false) (entry : String) :
    follow t (pathNames entry) = follow t (entryPath entry) := by
  unfold entryPath
  split
  · rename_i hroot
    rw [hroot, pathNames_dotSlash, follow]
    show (if t.isLink then pure none else follow t []) = follow t []
    rw [ht, if_neg Bool.false_ne_true]
  · rfl

/-! ## What a fingerprint is the digest of -/

/-- The data that is digested for an entry: the bytes of a file, or the listing of a directory. -/
def dataOf (entry : String) : Tree → Option (List UInt8)
  | .file info => if isDirEntry entry then none else info.content
  | .dir _ names _ =>
    if isDirEntry entry then some (utf8 (listing (countedNames entry names.list))) else none
  | .link _ => none

def digested? (t : Tree) (entry : String) : Option (List UInt8) :=
  (t.node? (entryPath entry)).bind (dataOf entry)

section

variable {sha256 : List UInt8 → String}

variable {print : String}

variable {t : Tree} {entry : String} {node : Tree}

theorem fingerprintFrom_ok (ht : t.isLink = false)
    (h : fingerprintFrom sha256 t entry = .ok print) :
    print = "symbolic_link" ∨ ∃ node data, follow t (entryPath entry) = .ok (some node) ∧
      dataOf entry node = some data ∧ print = sha256 data := by
  unfold fingerprintFrom at h
  rw [follow_entryPath ht] at h
  obtain ⟨reached, hreached, h⟩ := except_bind_ok h
  cases reached with
  | none =>
    cases h
    exact .inl rfl
  | some node =>
    refine .inr ?_
    dsimp only at h
    cases hentry : isDirEntry entry with
    | true =>
      rw [hentry, if_pos rfl] at h
      obtain ⟨names, hnames, h⟩ := except_bind_ok h
      cases h
      cases node with
      | file | link => cases hnames
      | dir =>
        rw [readdir] at hnames
        split at hnames
        · cases hnames
          exact ⟨_, _, hreached, if_pos hentry, rfl⟩
        · cases hnames
    | false =>
      rw [hentry, if_neg Bool.false_ne_true] at h
      obtain ⟨bytes, hbytes, h⟩ := except_bind_ok h
      cases h
      cases node with
      | dir | link => cases hbytes
      | file =>
        rw [readFile] at hbytes
        split at hbytes
        · rename_i content hcontent
          cases hbytes
          refine ⟨_, bytes, hreached, ?_, rfl⟩
          rw [dataOf, hentry, if_neg Bool.false_ne_true, hcontent]
        · cases hbytes

/-- A fingerprint is one of two marks, or the digest of the data of the entry. -/
theorem fingerprint_ok (ht : t.isLink = false)
    (hpath : ∀ name ∈ entryPath entry, IsEntryName name)
    (h : fingerprint sha256 t entry = .ok print) :
    print = "symbolic_link" ∨ print = "missing" ∨
      ∃ data, digested? t entry = some data ∧ print = sha256 data := by
  unfold fingerprint at h
  split at h
  · rename_i found hfound
    cases h
    rcases fingerprintFrom_ok ht hfound with hmark | ⟨node, data, hfollow, hdata, rfl⟩
    · exact .inl hmark
    · refine .inr (.inr ⟨data, ?_, rfl⟩)
      rw [digested?, node_of_follow hpath hfollow, Option.bind_some, hdata]
  · cases h
    exact .inr (.inl rfl)
  · cases h
    exact .inr (.inl rfl)
  · cases h
    exact .inr (.inl rfl)
  · cases h

/-- An entry that is what its name says has a digest, unless a call is refused. -/
theorem fingerprintFrom_of_node (ht : t.isLink = false)
    (hnode : t.node? (entryPath entry) = some node) (hlink : node.isLink = false)
    (hkind : node.isDir = isDirEntry entry) :
    fingerprintFrom sha256 t entry = .error .eacces ∨
      ∃ data, dataOf entry node = some data ∧
        fingerprintFrom sha256 t entry = .ok (sha256 data) := by
  unfold fingerprintFrom
  rw [follow_entryPath ht]
  rcases follow_of_node hnode hlink with hfollow | hfollow
  · rw [hfollow]
    cases node with
    | link => cases hlink
    | file info =>
      have hentry : isDirEntry entry = false := hkind.symm
      have hdata : dataOf entry (.file info) = info.content := by
        rw [dataOf, hentry, if_neg Bool.false_ne_true]
      change (if isDirEntry entry then _ else _) = _ ∨ ∃ data, _ ∧ (if isDirEntry entry then _ else _) = _
      rw [hentry, if_neg Bool.false_ne_true, hdata, readFile]
      cases info.content with
      | none => exact .inl rfl
      | some bytes => exact .inr ⟨bytes, rfl, rfl⟩
    | dir =>
      have hentry : isDirEntry entry = true := hkind.symm
      change (if isDirEntry entry then _ else _) = _ ∨ ∃ data, _ ∧ (if isDirEntry entry then _ else _) = _
      rw [hentry, if_pos rfl, readdir]
      split
      · exact .inr ⟨_, if_pos hentry, rfl⟩
      · exact .inl rfl
  · rw [hfollow]
    exact .inl rfl

theorem fingerprint_of_node (ht : t.isLink = false)
    (hnode : t.node? (entryPath entry) = some node) (hlink : node.isLink = false)
    (hkind : node.isDir = isDirEntry entry) (h : fingerprint sha256 t entry = .ok print) :
    ∃ data, digested? t entry = some data ∧ print = sha256 data := by
  unfold fingerprint at h
  rcases fingerprintFrom_of_node ht hnode hlink hkind with hfrom | ⟨data, hdata, hfrom⟩
  · rw [hfrom] at h
    cases h
  · rw [hfrom] at h
    cases h
    refine ⟨data, ?_, rfl⟩
    rw [digested?, hnode, Option.bind_some, hdata]

theorem kind_of_dataOf {data : List UInt8} (h : dataOf entry node = some data) :
    node.isLink = false ∧ node.isDir = isDirEntry entry := by
  cases node with
  | link => cases h
  | file =>
    rw [dataOf] at h
    split at h
    · cases h
    · rename_i hentry
      exact ⟨rfl, (Bool.eq_false_iff.2 hentry).symm⟩
  | dir =>
    rw [dataOf] at h
    split at h
    · rename_i hentry
      exact ⟨rfl, hentry.symm⟩
    · cases h

/-- An entry with data has the digest of the data as its fingerprint. -/
theorem fingerprint_of_digested {data : List UInt8} (ht : t.isLink = false)
    (hdata : digested? t entry = some data) (h : fingerprint sha256 t entry = .ok print) :
    print = sha256 data := by
  obtain ⟨node, hnode, hof⟩ := Option.bind_eq_some_iff.1 hdata
  obtain ⟨hlink, hkind⟩ := kind_of_dataOf hof
  obtain ⟨data', hdata', rfl⟩ := fingerprint_of_node ht hnode hlink hkind h
  rw [hdata] at hdata'
  rw [Option.some.inj hdata']

end

/-! ## Records -/

theorem lookup_eq_some_iff_mem {r : Record} (hfun : ∀ k v v', (k, v) ∈ r → (k, v') ∈ r → v = v')
    {value : String} : r.lookup key = some value ↔ (key, value) ∈ r := by
  constructor
  · intro h
    obtain ⟨before, behind, rfl, -⟩ := List.lookup_eq_some_iff.1 h
    exact List.mem_append_right _ List.mem_cons_self
  · intro hmem
    cases h : r.lookup key with
    | none =>
      have hnone := List.lookup_eq_none_iff.1 h (key, value) hmem
      rw [bne_self_eq_false] at hnone
      cases hnone
    | some found =>
      obtain ⟨before, behind, rfl, -⟩ := List.lookup_eq_some_iff.1 h
      rw [hfun key found value (List.mem_append_right _ List.mem_cons_self) hmem]

theorem lookup_isSome {r : Record} : (r.lookup key).isSome = true ↔ key ∈ r.map Prod.fst := by
  rw [List.lookup_isSome_iff, List.mem_map]
  constructor
  · rintro ⟨e, he, hkey⟩
    exact ⟨e, he, (beq_iff_eq.1 hkey).symm⟩
  · rintro ⟨e, he, rfl⟩
    exact ⟨e, he, beq_self_eq_true _⟩

/-- A key that does not differ has the same value, or none in both. -/
theorem lookup_eq_of_not_differing {a b : Record} (h : key ∉ differingKeys a b) :
    a.lookup key = b.lookup key := by
  by_contra hne
  refine h (List.mem_filter.2 ⟨List.mem_eraseDups.2 (List.mem_append.2 ?_), by simpa using hne⟩)
  by_contra hkeys
  rw [not_or, ← lookup_isSome, ← lookup_isSome, Option.not_isSome_iff_eq_none,
    Option.not_isSome_iff_eq_none] at hkeys
  exact hne (hkeys.1.trans hkeys.2.symm)

/-! ## Scans -/

section

variable {sha256 : List UInt8 → String}

variable {disk : Disk}

variable {root : String} {s : Scan} {t : Tree}

theorem scan_ok (h : scan sha256 disk root = .ok s) :
    ∃ t visits, disk root = some t ∧ t.isDir = true ∧ walk t "" = .ok visits ∧
      s.reads = sortTexts (visits.filterMap readEntry?) ∧
      s.tree = propertyOrder (visits.filterMap fun v => (treeText sha256 v.node).map fun text =>
        (v.rel, text)) := by
  obtain ⟨visits, hvisits, h⟩ := except_bind_ok h
  cases h
  unfold walkRoot at hvisits
  split at hvisits
  · cases hvisits
  · rename_i t hroot
    split at hvisits
    · rename_i hdir
      exact ⟨t, visits, hroot, hdir, hvisits, rfl, rfl⟩
    · cases hvisits

/-- What counts as read: an entry that was accessed, under its own path. -/
theorem mem_scan_reads (h : scan sha256 disk root = .ok s) (ht : disk root = some t)
    {entry : String} :
    entry ∈ s.reads ↔ ∃ path node, Walked path ∧ t.node? path = some node ∧
      readEntry? ⟨relFrom "" path, node⟩ = some entry := by
  obtain ⟨t', visits, hroot, -, hwalk, hreads, -⟩ := scan_ok h
  obtain rfl : t = t' := Option.some.inj (ht.symm.trans hroot)
  rw [hreads, mem_sortTexts, List.mem_filterMap]
  constructor
  · rintro ⟨v, hv, hentry⟩
    obtain ⟨path, hrel, hnode, hwalked⟩ := (mem_walk hwalk).1 hv
    refine ⟨path, v.node, hwalked rfl, hnode, ?_⟩
    rw [← hrel]
    exact hentry
  · rintro ⟨path, node, hwalked, hnode, hentry⟩
    exact ⟨_, (mem_walk hwalk).2 ⟨path, rfl, hnode, fun _ => hwalked⟩, hentry⟩

/-- The listing of the tree has the entry of a path, and nothing else under its text. -/
theorem lookup_scan_tree (h : scan sha256 disk root = .ok s) (ht : disk root = some t)
    {path : List String} (hproper : ∀ name ∈ path, IsEntryName name) (hwalked : Walked path) :
    s.tree.lookup (relFrom "" path) = (t.node? path).bind (treeText sha256) := by
  obtain ⟨t', visits, hroot, -, hwalk, -, htree⟩ := scan_ok h
  obtain rfl : t = t' := Option.some.inj (ht.symm.trans hroot)
  -- a property is the entry of one path
  have hmem : ∀ key text, (key, text) ∈ s.tree ↔ ∃ path node, key = relFrom "" path ∧
      Walked path ∧ t.node? path = some node ∧ treeText sha256 node = some text := by
    intro key text
    rw [htree, (propertyOrder_perm _).mem_iff, List.mem_filterMap]
    constructor
    · rintro ⟨v, hv, hentry⟩
      obtain ⟨path, hrel, hnode, hwalked⟩ := (mem_walk hwalk).1 hv
      obtain ⟨text', htext, heq⟩ := Option.map_eq_some_iff.1 hentry
      cases heq
      exact ⟨path, v.node, hrel, hwalked rfl, hnode, htext⟩
    · rintro ⟨path, node, rfl, hwalked, hnode, htext⟩
      refine ⟨⟨relFrom "" path, node⟩,
        (mem_walk hwalk).2 ⟨path, rfl, hnode, fun _ => hwalked⟩, ?_⟩
      dsimp only
      rw [htext, Option.map_some]
  -- the text of a path is of no other path
  have hpath : ∀ {path' node}, t.node? path' = some node → relFrom "" path = relFrom "" path' →
      path = path' := by
    intro path' node hnode heq
    rw [← pathNames_root hproper, heq, pathNames_root (DirTree.proper_of_node? hnode)]
  have hfun : ∀ k v v', (k, v) ∈ s.tree → (k, v') ∈ s.tree → v = v' := by
    intro k v v' hv hv'
    obtain ⟨path₁, node₁, rfl, -, hnode₁, htext₁⟩ := (hmem _ _).1 hv
    obtain ⟨path₂, node₂, heq, -, hnode₂, htext₂⟩ := (hmem _ _).1 hv'
    have hsame : path₁ = path₂ := by
      rw [← pathNames_root (DirTree.proper_of_node? hnode₁), heq,
        pathNames_root (DirTree.proper_of_node? hnode₂)]
    subst hsame
    rw [hnode₁] at hnode₂
    cases hnode₂
    exact Option.some.inj (htext₁.symm.trans htext₂)
  apply Option.ext
  intro text
  rw [lookup_eq_some_iff_mem hfun, hmem, Option.bind_eq_some_iff]
  constructor
  · rintro ⟨path', node, heq, -, hnode, htext⟩
    rw [hpath hnode heq]
    exact ⟨node, hnode, htext⟩
  · rintro ⟨node, hnode, htext⟩
    exact ⟨path, node, rfl, hwalked, hnode, htext⟩

/-- The entry of what was read names the path and says whether it is a directory. -/
theorem readEntry_spec {node : Tree} {path : List String} {entry : String}
    (hnode : t.node? path = some node) (h : readEntry? ⟨relFrom "" path, node⟩ = some entry) :
    entryPath entry = path ∧ node.isLink = false ∧ node.isDir = isDirEntry entry := by
  have hproper := DirTree.proper_of_node? hnode
  cases node with
  | link => cases h
  | file =>
    unfold readEntry? at h
    dsimp only at h
    split at h
    · cases h
      exact ⟨entryPath_file hproper, rfl, (isDirEntry_file hproper).symm⟩
    · cases h
  | dir =>
    unfold readEntry? at h
    dsimp only at h
    split at h
    · cases h
      exact ⟨entryPath_dir hproper, rfl, (isDirEntry_dirEntry _).symm⟩
    · cases h

end

end ReadTracker
end XioFlow
