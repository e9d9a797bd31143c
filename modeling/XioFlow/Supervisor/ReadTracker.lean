/-
  XioFlow.Supervisor.ReadTracker

  The evidence of what a command read under its roots, and the answer whether
  its result still describes the workspace.

  What stands at a root is a directory tree, with links above the root already
  followed.  A tree is looked at as it stands while it is scanned; the access
  times of nested roots may differ from root to root.  Setting the access
  times back before the command runs only decides which entries count as read,
  so it is left out, and so are the bytes of the evidence file: it holds the
  evidence or cannot be read.
-/

import XioFlow.Lib.DirTree
import XioFlow.Supervisor.RequestIdentity

namespace XioFlow

open Lib Lib.JsonText

namespace ReadTracker

/-! ## What the calls on files answer -/

structure Stat where
  size : Nat
  atimeNs : Int
  mtimeNs : Int
  deriving DecidableEq

def wasAccessed (st : Stat) : Bool := decide (st.mtimeNs ≤ st.atimeNs)

/-- An entry that is no directory and no link; reading it may be refused. -/
structure FileInfo where
  stat : Stat
  content : Option (List UInt8)

/-- A directory; listing it and looking up its entries may be refused. -/
structure DirInfo where
  stat : Stat
  listable : Bool := true
  searchable : Bool := true

abbrev Tree := DirTree FileInfo DirInfo

/-- What stands at each absolute path that is a root. -/
abbrev Disk := String → Option Tree

/-- The errors of the calls. -/
inductive Failure where
  | enoent | enotdir | eisdir | eacces
  /-- `Read tracking root is not a real directory: ${dir}` -/
  | notRealDirectory (dir : String)
  /-- the evidence file was not written or not accepted -/
  | notStored (message : String)
  deriving DecidableEq

/-- `fs.lstatSync(path.join(current, part))` of a directory or a file, for a name or `.` -/
def lstatIn (t : Tree) (part : String) : Except Failure Tree :=
  if part = "." then .ok t
  else match t with
    | .dir info names child =>
      if !info.searchable then .error .eacces
      else if part ∈ names.list then .ok (child part)
      else .error .enoent
    | _ => .error .enotdir

/-- `fs.readdirSync` -/
def readdir : Tree → Except Failure (List String)
  | .dir info names _ => if info.listable then .ok names.list else .error .eacces
  | _ => .error .enotdir

/-- `fs.readFileSync` -/
def readFile : Tree → Except Failure (List UInt8)
  | .file info => match info.content with
    | some bytes => .ok bytes
    | none => .error .eacces
  | .dir _ _ _ => .error .eisdir
  | .link _ => .error .enoent

/-! ## Walking and fingerprints -/

/-- `SKIP_TOP` -/
def skipTop : List String := [".git"]

def CHANGED_LIMIT : Nat := 50

/-- What `walk` comes to: the path below the root, and what stands there. -/
structure Visit where
  rel : String
  node : Tree

/-- The names of a directory that `walk` goes on to. -/
def walkedNames (rel : String) (names : Names) : List String :=
  names.list.filter fun name => !(decide (rel = "") && skipTop.contains name)

def walk : Tree → String → Except Failure (List Visit)
  | .dir info names child, rel =>
    if !info.listable then .error .eacces
    else do
      let below ← (walkedNames rel names).mapM fun name =>
        if !info.searchable then .error .eacces else walk (child name) (childRel rel name)
      pure (⟨rel, .dir info names child⟩ :: below.flatten)
  | node, rel => .ok [⟨rel, node⟩]

/-- `walk(root, …)` -/
def walkRoot (disk : Disk) (root : String) : Except Failure (List Visit) :=
  match disk root with
  | none => .error .enoent
  | some t => if t.isDir then walk t "" else .error (.notRealDirectory root)

/-- The way down to an entry; nothing when a link is on it. -/
def follow : Tree → List String → Except Failure (Option Tree)
  | t, [] => .ok (some t)
  | t, part :: parts => do
    let below ← lstatIn t part
    if below.isLink then pure none else follow below parts

def isDirEntry (entry : String) : Bool := entry.toList.getLast? == some '/'

/-- The names that count in a listing, which are all but the ones that are skipped in the root. -/
def countedNames (entry : String) (names : List String) : List String :=
  names.filter fun name => !(decide (entry = "./") && skipTop.contains name)

/-- `names.sort().join('\n')` -/
def listing (names : List String) : List Char :=
  joinAtChar '\n' ((sortTexts names).map String.toList)

section

variable (sha256 : List UInt8 → String)

/-- What is behind an entry, without the errors that mean that it is missing. -/
def fingerprintFrom (t : Tree) (entry : String) : Except Failure String := do
  match ← follow t (pathNames entry) with
  | none => pure "symbolic_link"
  | some node =>
    if isDirEntry entry then
      pure (sha256 (utf8 (listing (countedNames entry (← readdir node)))))
    else pure (sha256 (← readFile node))

def fingerprint (t : Tree) (entry : String) : Except Failure String :=
  match fingerprintFrom sha256 t entry with
  | .ok print => .ok print
  | .error .enoent => .ok "missing"
  | .error .enotdir => .ok "missing"
  | .error .eisdir => .ok "missing"
  | .error e => .error e

/-! ## Scans -/

/-- An object with the properties in the order in which it enumerates them. -/
abbrev Record := List (String × String)

/-- `hash(fs.readlinkSync(abs))` -/
def linkHash (target : String) : String := sha256 (utf8 target.toList)

/-- `${st.size}:${st.mtimeNs}` -/
def statText (st : Stat) : String :=
  String.ofList (digitsOf st.size ++ ':' :: intDigits st.mtimeNs)

/-- What `tree` says of an entry. -/
def treeText : Tree → Option String
  | .file info => some (statText info.stat)
  | .link target => some ("link:" ++ linkHash sha256 target)
  | .dir _ _ _ => none

/-- The entry under which a visit counts as read. -/
def readEntry? (v : Visit) : Option String :=
  match v.node with
  | .file info => if wasAccessed info.stat then some v.rel else none
  | .dir info _ _ =>
    if wasAccessed info.stat then some ((if v.rel = "" then "." else v.rel) ++ "/") else none
  | .link _ => none

structure Scan where
  reads : List String
  tree : Record
  pathDependencies : Record

def scan (disk : Disk) (root : String) : Except Failure Scan := do
  let visits ← walkRoot disk root
  pure {
    reads := sortTexts (visits.filterMap readEntry?)
    tree := propertyOrder (visits.filterMap fun v => (treeText sha256 v.node).map fun text =>
      (v.rel, text))
    pathDependencies := propertyOrder (visits.filterMap fun v => match v.node with
      | .link target => some (v.rel, linkHash sha256 target)
      | _ => none) }

/-! ## Sessions -/

inductive StatCaches where
  | ruledOut | possible
  deriving DecidableEq

/-- A command that is observed, with the roots as real paths. -/
structure Session where
  opId : String
  roots : List String
  busy : Bool
  statCaches : StatCaches
  /-- `observed.get(root)` -/
  observed : String → Bool := fun _ => false

/-! ## Collecting -/

structure RootEvidence where
  root : String
  /-- What was read and its fingerprint; nothing when reading was not observed. -/
  reads : Option Record
  /-- The links and their texts; old evidence does not say. -/
  pathDependencies : Option Record
  tree : Record

structure EvidenceFile where
  opId : String
  statCaches : StatCaches
  roots : List RootEvidence

inductive Tracking where
  | atime | unobserved | failed
  deriving DecidableEq

inductive UnobservedReason where
  | noAtime | rootsBusy
  deriving DecidableEq

/-- What the result of an operation says of its reads. -/
structure ReadEvidence where
  tracking : Tracking
  reason : Option UnobservedReason := none
  statCaches : StatCaches
  roots : List String
  entryCount : Option Nat := none
  digest : Option String := none
  ref : Option String := none
  error : Option Failure := none

def recordValue (r : Record) : Value := .obj (r.map fun e => (units e.1, Supervisor.textValue e.2))

def rootValue (r : RootEvidence) : Value :=
  .arr ([Supervisor.textValue r.root, Supervisor.nullOr recordValue r.reads] ++
    (r.pathDependencies.map recordValue).toList)

def evidenceDigest (roots : List RootEvidence) : String :=
  Supervisor.digest sha256 (.arr (roots.map rootValue))

/-- The fingerprint of an entry below a root. -/
def fingerprintAt (disk : Disk) (root entry : String) : Except Failure String :=
  match disk root with
  | none => .ok "missing"
  | some t => fingerprint sha256 t entry

def collectRoot (s : Session) (disk : Disk) (root : String) : Except Failure RootEvidence := do
  let found ← scan sha256 disk root
  if !s.observed root then
    pure { root, reads := none, tree := found.tree, pathDependencies := some found.pathDependencies }
  else
    let prints ← found.reads.mapM fun entry =>
      (fingerprintAt sha256 disk root entry).map fun print => (entry, print)
    pure { root, reads := some (propertyOrder prints), tree := found.tree,
           pathDependencies := some found.pathDependencies }

/-- `collect`, with the evidence file it writes; `stored` is how writing it and accepting it ends. -/
def Session.collect (s : Session) (disk : Disk) (ref : String) (stored : Except Failure Unit) :
    ReadEvidence × Option EvidenceFile :=
  match s.roots.mapM (collectRoot sha256 s disk), stored with
  | .ok perRoot, .ok () =>
    let tracked := perRoot.all fun r => r.reads.isSome
    ({ statCaches := s.statCaches
       roots := s.roots
       tracking := if tracked then .atime else .unobserved
       reason := if tracked then none else some (if s.busy then .rootsBusy else .noAtime)
       entryCount := some (perRoot.map fun r => (r.reads.getD []).length).sum
       digest := some (evidenceDigest sha256 perRoot)
       ref := some ref },
      some { opId := s.opId, statCaches := s.statCaches, roots := perRoot })
  | .error e, _ =>
    ({ statCaches := s.statCaches, roots := s.roots, tracking := .failed, error := some e }, none)
  | .ok _, .error e =>
    ({ statCaches := s.statCaches, roots := s.roots, tracking := .failed, error := some e }, none)

/-! ## Evaluating -/

inductive Basis where
  | treeUnchanged | readsUnchanged
  deriving DecidableEq

inductive UnknownReason where
  | notTracked | readsUnobserved | evidenceMissing | evidenceUnreadable | changedOutsideReadSet
  deriving DecidableEq

/-- A list of paths that may have been cut. -/
structure Limited where
  paths : List String
  truncated : Bool
  deriving DecidableEq

inductive EvidenceStatus where
  | fresh (basis : Basis)
  | stale (changed : Limited)
  | unknown (reason : UnknownReason) (changedOutside : Option Limited)
  deriving DecidableEq

/-- Why an evidence file could not be read. -/
inductive ArtifactError where
  | enoent | other
  deriving DecidableEq

def limited (paths : List String) : Limited :=
  ⟨paths.take CHANGED_LIMIT, decide (CHANGED_LIMIT < paths.length)⟩

/-- `path.join(root, rel)`; the entry of a directory keeps its final slash. -/
def joinPath (root rel : String) : String :=
  let base := if root = "/" then "" else root
  if rel = "./" then base ++ "/" else base ++ "/" ++ rel

/-- `fs.lstatSync(root, { throwIfNoEntry: false })?.isDirectory()` -/
def isRealDirectory (disk : Disk) (root : String) : Bool := (disk root).any DirTree.isDir

/-- What one root adds to the answer. -/
structure RootCheck where
  changedReads : List String := []
  changedOutside : List String := []
  unobserved : Bool := false

/-- The entries whose fingerprint is another one now. -/
def changedEntries (disk : Disk) (root : String) (reads : Record) : Except Failure (List String) := do
  let prints ← reads.mapM fun e => (fingerprintAt sha256 disk root e.1).map fun print => (e, print)
  pure ((prints.filter fun p => p.2 ≠ p.1.2).map fun p => p.1.1)

/-- `new Set([...Object.keys(a), ...Object.keys(b)])`, and of these the keys with different values. -/
def differingKeys (a b : Record) : List String :=
  (a.map Prod.fst ++ b.map Prod.fst).eraseDups.filter fun key => a.lookup key ≠ b.lookup key

def checkRoot (disk : Disk) (r : RootEvidence) : Except Failure RootCheck :=
  if !isRealDirectory disk r.root then .ok { changedReads := [r.root] }
  else do
    let reads := r.reads.getD []
    let changed ← changedEntries sha256 disk r.root reads
    let now ← scan sha256 disk r.root
    let links := differingKeys (r.pathDependencies.getD []) now.pathDependencies
    -- what was read is judged by its fingerprint, not by its size and times
    let outside := (differingKeys r.tree now.tree).filter fun rel => (reads.lookup rel).isNone
    pure { changedReads := changed.map (joinPath r.root)
           changedOutside := outside.map (joinPath r.root)
           unobserved := r.reads.isNone || r.pathDependencies.isNone || !links.isEmpty }

/-- The answer from what the roots say. -/
def statusOf (statCaches : StatCaches) (checks : List RootCheck) : EvidenceStatus :=
  let changedReads := checks.flatMap RootCheck.changedReads
  let changedOutside := checks.flatMap RootCheck.changedOutside
  if changedReads ≠ [] then .stale (limited (sortTexts changedReads))
  else if changedOutside = [] then .fresh .treeUnchanged
  else if checks.any RootCheck.unobserved then
    .unknown .readsUnobserved (some (limited (sortTexts changedOutside)))
  else if statCaches = .ruledOut then .fresh .readsUnchanged
  else .unknown .changedOutsideReadSet (some (limited (sortTexts changedOutside)))

/-- `artifacts` is what the evidence files hold, as far as they can be read. -/
def evaluateReadEvidence (artifacts : String → Except ArtifactError EvidenceFile) (disk : Disk) :
    Option ReadEvidence → Except Failure EvidenceStatus
  | none => .ok (.unknown .notTracked none)
  | some evidence =>
    match decide (evidence.tracking = .failed), nonEmpty evidence.ref with
    | false, some ref =>
      match artifacts ref with
      | .error .enoent => .ok (.unknown .evidenceMissing none)
      | .error .other => .ok (.unknown .evidenceUnreadable none)
      | .ok file =>
        if some (evidenceDigest sha256 file.roots) ≠ evidence.digest then
          .ok (.unknown .evidenceUnreadable none)
        else (file.roots.mapM (checkRoot sha256 disk)).map (statusOf file.statCaches)
    | _, _ => .ok (.unknown .evidenceMissing none)

end

end ReadTracker
end XioFlow
