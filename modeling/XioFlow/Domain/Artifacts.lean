/-
  XioFlow.Domain.Artifacts

  The artifacts directory of a domain, and `pruneArtifacts`, which takes files
  out of it.

  The pass reads the store once: which names are protected, and which files
  have an owner on record.  It then goes through the directory, and every
  entry is either taken out or reported as retained.
-/

import XioFlow.Domain.Isolation
import XioFlow.Capability.Paths
import XioFlow.Lib.Unicode
import Mathlib.Data.List.Sort

namespace XioFlow

open Lib
open Lib.Prog (Part check read exec onlyIf)
open SqliteStore (FileIdentity)

/-! ## The directory -/

deriving instance DecidableEq for SqliteStore.FileIdentity

/-- What the file system answers about a name in the artifacts directory. -/
structure ArtifactEntry where
  name : String
  /-- `lstat(file).isFile()` -/
  isFile : Bool
  identity : FileIdentity
  mtimeMs : Rat
  /-- `unlinkSync` does not throw -/
  removable : Bool := true
  deriving DecidableEq

/-- The entries of a directory, each under a name of its own. -/
structure ArtifactFiles extends Table ArtifactEntry ArtifactEntry.name where
  proper : ∀ entry ∈ rows, ProperName entry.name

instance : DecidableEq ArtifactFiles := fun f g =>
  decidable_of_iff (f.rows = g.rows) ⟨fun h => by
    obtain ⟨⟨rows, _⟩, _⟩ := f
    obtain ⟨⟨rows', _⟩, _⟩ := g
    simp only at h
    subst h
    rfl, fun h => h ▸ rfl⟩

/-- What stands under the name of the artifacts directory. -/
inductive ArtifactsDirectory where
  | missing
  /-- a file, or a symbolic link -/
  | notDirectory
  | files (held : ArtifactFiles)
  deriving DecidableEq

def ArtifactsDirectory.entries : ArtifactsDirectory → List ArtifactEntry
  | missing | notDirectory => []
  | files held => held.rows

/-- `unlink` -/
def ArtifactFiles.without (files : ArtifactFiles) (name : String) : ArtifactFiles where
  toTable := files.toTable.deleteWhere fun entry => entry.name = name
  proper entry hentry := files.proper entry (Table.mem_deleteWhere.1 hentry).1

/-- A domain and its artifacts directory. -/
structure DomainFiles where
  domain : ExecutionDomain
  artifacts : ArtifactsDirectory
  deriving DecidableEq

abbrev FilesM := Prog DomainFiles KernelError

/-- The domain as a part of the state. -/
def domainPart : Part DomainFiles ExecutionDomain where
  get d := d.domain
  put d domain := { d with domain }
  get_put _ _ := rfl
  put_get _ := rfl
  put_put _ _ _ := rfl

/-! ## Names and paths -/

/-- Where the directory is, and what the library of the host language computes. -/
structure ArtifactHost where
  fs : FileSystem
  /-- `path.join(domainPath, 'artifacts')` -/
  artifactsDir : String
  /-- SHA-256, in hexadecimal digits -/
  sha256 : List UInt8 → List Char
  /-- `Date.parse`, and nothing for `NaN` -/
  dateParse : String → Option Int

/-- `/[A-Za-z0-9_.:@+#-]/` -/
def stemChar (c : Char) : Bool := c.isAlphanum || ['_', '.', ':', '@', '+', '#', '-'].contains c

namespace StoredNames

/-- `Buffer.from(id, 'utf16le')` -/
def utf16le (id : Utf16) : List UInt8 :=
  id.flatMap fun u => [UInt8.ofNat (u.val % 256), UInt8.ofNat (u.val / 256)]

/-- IDs are opaque keys, never path components. -/
def artifactStem (sha256 : List UInt8 → List Char) (id : Utf16) : List Char :=
  if matchesName stemChar stemChar 180 (String.ofList id.scalars) then id.scalars
  else "~xio-id-".toList ++ sha256 (utf16le id)

end StoredNames

namespace ArtifactHost

variable (host : ArtifactHost)

/-- The stem of an id in which no surrogate stands alone. -/
def artifactStem (id : String) : String :=
  String.ofList (StoredNames.artifactStem host.sha256 (Utf16.ofChars id.toList))

/-- `path.join(artifactsDir, file)` -/
def filePath (file : String) : String := host.artifactsDir ++ "/" ++ file

end ArtifactHost

/-- `path.basename`: the last name of a path, slashes at its end aside. -/
def basename (p : String) : String :=
  String.ofList (((splitAtChar '/' p.toList).filter fun seg => seg ≠ []).getLastD [])

/-- `path.isAbsolute` -/
def isAbsolute (p : String) : Bool := hasPrefix "/" p

/-- The basename of a reference that is there. -/
def refName (ref : Option String) : List String := ((nonEmpty ref).map basename).toList

/-! ## What the store says -/

namespace SqliteStore

/-- `ORDER BY created_at, artifact_id` -/
def listArtifacts (s : SqliteStore) (domainId : String) : List ArtifactRecord :=
  (s.db.artifacts.select fun record => record.domainId = domainId).insertionSort fun a b =>
    a.createdAt < b.createdAt ∨ (a.createdAt = b.createdAt ∧ a.id ≤ b.id)

def listSnapshots (s : SqliteStore) (domainId : String) : List SnapshotRef :=
  s.db.snapshots.select fun snapshot => snapshot.domainId = domainId

end SqliteStore

/-- `result.stdoutRef`, which only process results have. -/
def OperationResult.stdoutRef : OperationResult → Option String
  | process r => (Json.obj r.facts).strField? "stdoutRef"
  | _ => none

def OperationResult.stderrRef : OperationResult → Option String
  | process r => (Json.obj r.facts).strField? "stderrRef"
  | _ => none

/-- `result.readEvidence?.ref` -/
def OperationResult.readEvidenceRef : OperationResult → Option String
  | process r =>
    ((Json.obj r.facts).field? "readEvidence").bind fun evidence => evidence.strField? "ref"
  | _ => none

/-- The result says that the outcome is unknown. -/
def Operation.indeterminate (op : Operation) : Bool :=
  op.result.any fun result => result.status = .indeterminate

/-- The artifacts an operation refers to. -/
def Operation.references (op : Operation) : List (Option String) :=
  [op.outputRef, op.result.bind OperationResult.stdoutRef,
    op.result.bind OperationResult.stderrRef, op.result.bind OperationResult.readEvidenceRef]

/-- What the names of an operation's own artifacts end in. -/
def artifactSuffixes (kind : OperationKind) : List String :=
  ["-stdout.log", "-stderr.log", ".stderr.log", "-reads.json.gz"] ++
    if kind = .snapshot then ["-ignored.manifest"] else []

/-- The names an operation may have given its artifacts, by its encoded and its plain id. -/
def ArtifactHost.namesOf (host : ArtifactHost) (op : Operation) : List String :=
  [host.artifactStem op.id, op.id].flatMap fun stem =>
    (artifactSuffixes op.kind).map fun suffix => stem ++ suffix

/-- What an operation adds to `protectedFiles`. -/
def ArtifactHost.protectedBy (host : ArtifactHost) (op : Operation) : List String :=
  (if op.status ≠ .done ∨ op.indeterminate then host.namesOf op else []) ++
    op.references.flatMap refName

/-- What a snapshot adds to `protectedFiles`. -/
def ArtifactHost.manifestsOf (host : ArtifactHost) (snapshot : SnapshotRef) : List String :=
  if (nonEmpty snapshot.ignoredManifestDigest).isSome then
    [host.artifactStem snapshot.id ++ "-ignored.manifest", snapshot.id ++ "-ignored.manifest"]
  else []

def ArtifactHost.protectedFiles (host : ArtifactHost) (s : SqliteStore) (domainId : String) :
    List String :=
  ((s.getAllOperations domainId).flatMap fun op => host.protectedBy op.toOperation) ++
    (s.listSnapshots domainId).flatMap host.manifestsOf

/-! ## Owners -/

/-- A file as its creation was recorded. -/
structure OwnedArtifact where
  path : Path
  identity : FileIdentity

structure OwnedFile where
  owned : OwnedArtifact
  record : Option ArtifactRecord := none

/-- `Map<string, OwnedFile>`, keyed by resolved paths. -/
abbrev OwnedFiles := Path → Option OwnedFile

def OwnedFiles.set (files : OwnedFiles) (file : OwnedFile) : OwnedFiles := fun path =>
  if path = file.owned.path then some file else files path

/-- `operations.get(id)` -/
def findOperation (allOps : List StoredOperation) (id : String) : Option StoredOperation :=
  allOps.find? fun op => op.id = id

/-- A present row with an absolute path, of an operation that is done and not indeterminate. -/
def authorizesRow (allOps : List StoredOperation) (record : ArtifactRecord) : Bool :=
  record.deletionState = "present" && isAbsolute record.path &&
    match (nonEmpty record.ownerOperationId).bind (findOperation allOps) with
    | none => false
    | some op => op.status = .done && !op.toOperation.indeterminate

def recordOwner (fs : FileSystem) (record : ArtifactRecord) : OwnedFile where
  owned := ⟨fs.resolve record.path, ⟨record.dev, record.ino, record.birthtimeNs⟩⟩
  record := some record

/-- The later of two rows for one path wins. -/
def addRecord (fs : FileSystem) (allOps : List StoredOperation) (files : OwnedFiles)
    (record : ArtifactRecord) : OwnedFiles :=
  if authorizesRow allOps record then files.set (recordOwner fs record) else files

/-- The artifact an event names, when its payload has all four texts and the path is absolute. -/
def createdArtifact? (fs : FileSystem) (event : JournalRow) : Option OwnedArtifact := do
  let file ← event.payload.strField? "path"
  let dev ← event.payload.strField? "dev"
  let ino ← event.payload.strField? "ino"
  let birthtimeNs ← event.payload.strField? "birthtimeNs"
  if isAbsolute file then some ⟨fs.resolve file, ⟨dev, ino, birthtimeNs⟩⟩ else none

/-- The event is of an operation that is done, with a result that is not indeterminate. -/
def authorizesEvent (allOps : List StoredOperation) (event : JournalRow) : Bool :=
  event.type = "ARTIFACT_CREATED" &&
    match (nonEmpty event.operationId).bind (findOperation allOps) with
    | none => false
    | some op => op.status = .done && op.result.isSome && !op.toOperation.indeterminate

/-- A row for the path, in whatever state, leaves no room for the event. -/
def addEvent (fs : FileSystem) (allOps : List StoredOperation) (knownArtifactPaths : List Path)
    (files : OwnedFiles) (event : JournalRow) : OwnedFiles :=
  if authorizesEvent allOps event then
    match createdArtifact? fs event with
    | none => files
    | some owned =>
      if knownArtifactPaths.contains owned.path || (files owned.path).isSome then files
      else files.set { owned := owned }
  else files

def ownedFiles (fs : FileSystem) (s : SqliteStore) (domainId : String) : OwnedFiles :=
  let allOps := s.getAllOperations domainId
  let artifactRecords := s.listArtifacts domainId
  let knownArtifactPaths := artifactRecords.map fun record => fs.resolve record.path
  (s.getJournalEvents domainId).foldl (addEvent fs allOps knownArtifactPaths)
    (artifactRecords.foldl (addRecord fs allOps) fun _ => none)

/-! ## The pass -/

structure PruneFilter where
  olderThanMs : Option Rat := none
  namePrefix : Option String := none
  nowMs : Option Rat := none

/-- What the pass has read before it looks at the directory. -/
structure PrunePlan where
  protectedFiles : List String
  ownedFiles : OwnedFiles
  filter : PruneFilter
  now : Rat

/-- Whether the row has expired; nothing when its expiry keeps the file. -/
def expired? (host : ArtifactHost) (now : Rat) (record : Option ArtifactRecord) : Option Bool :=
  match record.bind fun row => nonEmpty row.expiresAt with
  | none => some false
  | some expiresAt =>
    match host.dateParse expiresAt with
    | none => none
    | some expiresAtMs => if (expiresAtMs : Rat) ≤ now then some true else none

/-- The file is younger than the filter asks for. -/
def tooYoung (filter : PruneFilter) (now : Rat) (entry : ArtifactEntry) : Bool :=
  match filter.olderThanMs with
  | none => false
  | some olderThanMs => now - entry.mtimeMs < olderThanMs

/-- The checks of the loop: the owner of a file that goes, and whether its row has expired. -/
def condemned? (host : ArtifactHost) (plan : PrunePlan) (entry : ArtifactEntry) :
    Option (OwnedFile × Bool) :=
  if !entry.isFile then none
  else if entry.name ∈ plan.protectedFiles then none
  else
    match plan.ownedFiles (host.fs.resolve (host.filePath entry.name)) with
    | none => none
    | some owned =>
      if !((nonEmpty plan.filter.namePrefix).all fun p => hasPrefix p entry.name) then none
      else
        match expired? host plan.now owned.record with
        | none => none
        | some expired =>
          if !expired && tooYoung plan.filter plan.now entry then none else some (owned, expired)

/-- The entry that a path of the directory names. -/
def ArtifactsDirectory.lookup (host : ArtifactHost) (path : Path) :
    ArtifactsDirectory → Option ArtifactEntry
  | missing | notDirectory => none
  | files held => held.rows.find? fun entry => host.fs.resolve (host.filePath entry.name) = path

def ArtifactsDirectory.unlink (name : String) : ArtifactsDirectory → ArtifactsDirectory
  | files held => .files (held.without name)
  | missing => missing
  | notDirectory => notDirectory

/-- Never infer ownership from a filename when removing a transient artifact. -/
def removeOwnedArtifact (host : ArtifactHost) (artifact : OwnedArtifact) : FilesM Unit :=
  exec fun d =>
    match d.artifacts.lookup host artifact.path with
    | none => .ok d
    | some current =>
      if !current.isFile ∨ current.identity ≠ artifact.identity then
        .error (.error ("Artifact was replaced before cleanup: " ++ renderPath artifact.path))
      else if !current.removable then
        .error (.error ("unlink failed: " ++ renderPath artifact.path))
      else .ok { d with artifacts := d.artifacts.unlink current.name }

/-- `markArtifactDeleted` of the store, for a file that has a row. -/
def markDeleted (owned : OwnedFile) (expired : Bool) (clock : Timestamp) : FilesM Unit := do
  let domainId ← read (·.domain.domainId)
  onlyIf owned.record.isSome
    ((onStore (SqliteStore.markArtifactDeleted domainId owned.owned.identity
      (if expired then "retention_expired" else "pruned") clock)).within domainPart)

/-- One turn of the loop: whether the file was deleted. -/
def pruneFile (host : ArtifactHost) (plan : PrunePlan) (clock : Timestamp)
    (entry : ArtifactEntry) : FilesM Bool :=
  match condemned? host plan entry with
  | none => pure false
  | some (owned, expired) => do
    let removed ← tryCatch (do removeOwnedArtifact host owned.owned; pure true)
      fun _ => pure false
    if removed then do
      markDeleted owned expired clock
      pure true
    else pure false

structure PruneReport where
  deleted : List String
  retained : List String
  deriving DecidableEq

/-- The loop over the names of the directory. -/
def pruneFiles (host : ArtifactHost) (plan : PrunePlan) (clock : Timestamp) :
    List ArtifactEntry → FilesM PruneReport
  | [] => pure ⟨[], []⟩
  | entry :: entries => do
    let deleted ← pruneFile host plan clock entry
    let report ← pruneFiles host plan clock entries
    let file := host.filePath entry.name
    pure (if deleted then { report with deleted := file :: report.deleted }
      else { report with retained := file :: report.retained })

def prunePlan (host : ArtifactHost) (filter : PruneFilter) (clock : Timestamp)
    (d : ExecutionDomain) : PrunePlan where
  protectedFiles := host.protectedFiles d.store d.domainId
  ownedFiles := ownedFiles host.fs d.store d.domainId
  filter := filter
  now := filter.nowMs.getD clock

/-- Only artifacts whose operation is settled and that nothing refers to are taken out. -/
def pruneArtifacts (host : ArtifactHost) (filter : PruneFilter) (clock : Timestamp) :
    FilesM PruneReport := do
  check fun d => d.domain.assertNotFenced
  let artifacts ← read DomainFiles.artifacts
  match artifacts with
  | .missing => pure ⟨[], []⟩
  | .notDirectory =>
    throw (.error ("Artifact directory must be a real directory: " ++ host.artifactsDir))
  | .files held => do
    let plan ← read fun d => prunePlan host filter clock d.domain
    pruneFiles host plan clock held.rows

end XioFlow
