/-
  XioFlow.Domain.Pruning

  What `pruneArtifacts` takes out of the artifacts directory.

  `ProvablyDead` says what has to be known about a file, in terms of the rows
  of the store.  Every file that the pass takes out is dead in this sense,
  whether the pass returns or throws half way, and a pass that returns has
  reported every entry of the directory once.
-/

import XioFlow.Domain.Artifacts
import XioFlow.Lib.DirTree
import XioFlow.Lib.Outcome
import XioFlow.Lib.Wp

namespace XioFlow

open Lib
open Lib.Prog (run_bind run_bind_pure run_exec run_check run_read run_pure run_tryCatch run_within)
open SqliteStore (FileIdentity)

/-! ## Dead files -/

section Dead

variable (host : ArtifactHost) (s : SqliteStore) (domainId : String)

/-- The operation is done, and its outcome is known. -/
def Settled (op : StoredOperation) : Prop := op.status = .done ∧ op.toOperation.indeterminate = false

/-- A present row of a settled operation gives the file's path and identity. -/
structure RecordOwns (entry : ArtifactEntry) (record : ArtifactRecord) : Prop where
  listed : record ∈ s.listArtifacts domainId
  present : record.deletionState = "present"
  absolute : isAbsolute record.path = true
  path : host.fs.resolve record.path = host.fs.resolve (host.filePath entry.name)
  identity : (⟨record.dev, record.ino, record.birthtimeNs⟩ : FileIdentity) = entry.identity
  owner : ∃ op ∈ s.getAllOperations domainId, record.ownerOperationId = some op.id ∧ Settled op

/-- An event of a settled operation gives the file's path and identity. -/
structure EventOwns (entry : ArtifactEntry) (event : JournalRow) : Prop where
  listed : event ∈ s.getJournalEvents domainId
  created : event.type = "ARTIFACT_CREATED"
  file : createdArtifact? host.fs event =
    some ⟨host.fs.resolve (host.filePath entry.name), entry.identity⟩
  owner : ∃ op ∈ s.getAllOperations domainId,
    event.operationId = some op.id ∧ Settled op ∧ op.result.isSome = true

/-- No row of the domain, in whatever state, is for the path of the file. -/
def Unrecorded (entry : ArtifactEntry) : Prop :=
  ∀ record ∈ s.listArtifacts domainId,
    host.fs.resolve record.path ≠ host.fs.resolve (host.filePath entry.name)

/-- The row has an expiry that can be read and has come. -/
def Expired (now : Rat) (record : ArtifactRecord) : Prop :=
  ∃ text t, nonEmpty record.expiresAt = some text ∧ host.dateParse text = some t ∧ (t : Rat) ≤ now

/-- The file has the age that the filter asks for. -/
def OldEnough (filter : PruneFilter) (now : Rat) (entry : ArtifactEntry) : Prop :=
  ∀ olderThanMs, filter.olderThanMs = some olderThanMs → olderThanMs ≤ now - entry.mtimeMs

/-- What is known about a file before it may go.  A row with an expiry lets it go only when that
    has come, and then whatever the age of the file. -/
structure ProvablyDead (filter : PruneFilter) (now : Rat) (entry : ArtifactEntry) : Prop where
  regular : entry.isFile = true
  owned :
    (∃ record, RecordOwns host s domainId entry record ∧
      (Expired host now record ∨
        (nonEmpty record.expiresAt = none ∧ OldEnough filter now entry))) ∨
    (Unrecorded host s domainId entry ∧ (∃ event, EventOwns host s domainId entry event) ∧
      OldEnough filter now entry)
  unreferenced : ∀ op ∈ s.getAllOperations domainId, ∀ ref ∈ op.toOperation.references,
    ∀ file, ref = some file → basename file ≠ entry.name
  noManifest : ∀ snapshot ∈ s.listSnapshots domainId,
    (nonEmpty snapshot.ignoredManifestDigest).isSome = true →
      entry.name ≠ host.artifactStem snapshot.id ++ "-ignored.manifest" ∧
      entry.name ≠ snapshot.id ++ "-ignored.manifest"
  notOpen : ∀ op ∈ s.getAllOperations domainId, ¬ Settled op →
    entry.name ∉ host.namesOf op.toOperation
  named : ∀ p, filter.namePrefix = some p → hasPrefix p entry.name = true

end Dead

/-! ## Paths of entries -/

/-- The path of an entry is the path of the directory and its name. -/
theorem ArtifactHost.resolve_filePath (host : ArtifactHost) :
    ∃ base, ∀ name, ProperName name → host.fs.resolve (host.filePath name) = base ++ [name] := by
  refine ⟨resolveSegments (if hasPrefix "/" (host.artifactsDir ++ "/") then [] else host.fs.cwd)
    (splitAtChar '/' host.artifactsDir.toList), fun name hname => ?_⟩
  obtain ⟨hne, hslash, hdot, hdots⟩ := hname
  have hlist : (host.filePath name).toList = host.artifactsDir.toList ++ '/' :: name.toList := by
    unfold filePath
    simp
  have habsolute : hasPrefix "/" (host.filePath name) = hasPrefix "/" (host.artifactsDir ++ "/") := by
    unfold hasPrefix
    rw [hlist, String.toList_append]
    cases host.artifactsDir.toList with
    | nil => rfl
    | cons c cs => rfl
  unfold FileSystem.resolve
  rw [habsolute, hlist, splitAtChar_sep, splitAtChar_self hslash, resolveSegments_append,
    resolveSegments, if_neg (not_or.2 ⟨hne, hdot⟩), if_neg hdots, String.ofList_toList,
    resolveSegments]

/-- The path of an entry leads back to the entry. -/
theorem ArtifactFiles.lookup {held : ArtifactFiles} {entry : ArtifactEntry}
    (hentry : entry ∈ held.rows) (host : ArtifactHost) :
    (ArtifactsDirectory.files held).lookup host (host.fs.resolve (host.filePath entry.name)) =
      some entry := by
  obtain ⟨base, hbase⟩ := host.resolve_filePath
  show held.rows.find? _ = some entry
  cases hfind : held.rows.find? fun e =>
      host.fs.resolve (host.filePath e.name) = host.fs.resolve (host.filePath entry.name) with
  | none =>
    have hno := List.find?_eq_none.1 hfind entry hentry
    simp at hno
  | some found =>
    have hfound : found ∈ held.rows := List.mem_of_find?_eq_some hfind
    have hpath := List.find?_some hfind
    rw [decide_eq_true_iff] at hpath
    rw [hbase _ (held.proper _ hfound), hbase _ (held.proper _ hentry)] at hpath
    have hname : found.name = entry.name := List.singleton_injective (List.append_cancel_left hpath)
    rw [held.toTable.eq_of_key_eq hfound hentry hname]

/-! ## Owners -/

/-- What stands in the map under a path: a row of the domain, or an event about a path without
    one. -/
structure Justified (host : ArtifactHost) (s : SqliteStore) (domainId : String) (path : Path)
    (file : OwnedFile) : Prop where
  keyed : file.owned.path = path
  record : ∀ row, file.record = some row → file = recordOwner host.fs row ∧
    row ∈ s.listArtifacts domainId ∧ authorizesRow (s.getAllOperations domainId) row = true
  event : file.record = none → ∃ event ∈ s.getJournalEvents domainId,
    authorizesEvent (s.getAllOperations domainId) event = true ∧
      createdArtifact? host.fs event = some file.owned ∧
      ∀ row ∈ s.listArtifacts domainId, host.fs.resolve row.path ≠ path

section Owners

variable {host : ArtifactHost} {s : SqliteStore} {domainId : String}

/-- Everything in the map is justified. -/
def AllJustified (host : ArtifactHost) (s : SqliteStore) (domainId : String)
    (files : OwnedFiles) : Prop :=
  ∀ path file, files path = some file → Justified host s domainId path file

variable {files : OwnedFiles}

theorem AllJustified.set (h : AllJustified host s domainId files) {file : OwnedFile}
    (hfile : Justified host s domainId file.owned.path file) :
    AllJustified host s domainId (files.set file) := by
  intro path file' hpath
  unfold OwnedFiles.set at hpath
  split at hpath
  · rename_i heq
    rw [← Option.some.inj hpath, heq]
    exact hfile
  · exact h path file' hpath

theorem AllJustified.addRecord (h : AllJustified host s domainId files) {row : ArtifactRecord}
    (hrow : row ∈ s.listArtifacts domainId) :
    AllJustified host s domainId
      (addRecord host.fs (s.getAllOperations domainId) files row) := by
  unfold XioFlow.addRecord
  split
  · rename_i hauthorized
    refine h.set ⟨rfl, fun row' hrow' => ?_, fun hnone => absurd hnone (by simp [recordOwner])⟩
    obtain rfl : row = row' := Option.some.inj hrow'
    exact ⟨rfl, hrow, hauthorized⟩
  · exact h

theorem AllJustified.addEvent (h : AllJustified host s domainId files) {event : JournalRow}
    (hevent : event ∈ s.getJournalEvents domainId) :
    AllJustified host s domainId
      (addEvent host.fs (s.getAllOperations domainId)
        ((s.listArtifacts domainId).map fun record => host.fs.resolve record.path) files event) := by
  unfold XioFlow.addEvent
  split
  · rename_i hauthorized
    split
    · exact h
    · rename_i owned howned
      split
      · exact h
      · rename_i hfree
        refine h.set ⟨rfl, fun row hrow => absurd hrow (by simp), fun _ => ?_⟩
        refine ⟨event, hevent, hauthorized, howned, fun row hrow hpath => hfree ?_⟩
        rw [Bool.or_eq_true, List.contains_iff_mem]
        exact .inl (hpath ▸ List.mem_map_of_mem hrow)
  · exact h

theorem justified_ownedFiles : AllJustified host s domainId (ownedFiles host.fs s domainId) := by
  unfold ownedFiles
  refine List.foldlRecOn _ _ (List.foldlRecOn _ _ ?_ ?_) ?_
  · exact fun path file hnone => nomatch hnone
  · exact fun files h row hrow => h.addRecord hrow
  · exact fun files h event hevent => h.addEvent hevent

variable {ops : List StoredOperation}

/-- An operation found by its id is one of the domain's. -/
theorem findOperation_some {id : String} {op : StoredOperation}
    (h : findOperation ops id = some op) : op ∈ ops ∧ op.id = id :=
  ⟨List.mem_of_find?_eq_some h, by simpa using List.find?_some h⟩

theorem nonEmpty_bind_findOperation {id : Option String} {op : StoredOperation}
    (h : (nonEmpty id).bind (findOperation ops) = some op) : op ∈ ops ∧ id = some op.id := by
  obtain ⟨text, htext, hfound⟩ := Option.bind_eq_some_iff.1 h
  obtain ⟨hmem, hid⟩ := findOperation_some hfound
  obtain ⟨hsome, -⟩ := Option.filter_eq_some_iff.1 htext
  exact ⟨hmem, by rw [hsome, hid]⟩

theorem of_authorizesRow {row : ArtifactRecord} (h : authorizesRow ops row = true) :
    row.deletionState = "present" ∧
      isAbsolute row.path = true ∧
      ∃ op ∈ ops, row.ownerOperationId = some op.id ∧ Settled op := by
  unfold authorizesRow at h
  simp only [Bool.and_eq_true, decide_eq_true_eq] at h
  obtain ⟨⟨hpresent, habsolute⟩, hop⟩ := h
  refine ⟨hpresent, habsolute, ?_⟩
  split at hop
  · cases hop
  · rename_i op hfound
    obtain ⟨hmem, hid⟩ := nonEmpty_bind_findOperation hfound
    simp only [Bool.and_eq_true, decide_eq_true_eq, Bool.not_eq_true'] at hop
    exact ⟨op, hmem, hid, hop⟩

theorem of_authorizesEvent {event : JournalRow} (h : authorizesEvent ops event = true) :
    event.type = "ARTIFACT_CREATED" ∧
      ∃ op ∈ ops, event.operationId = some op.id ∧ Settled op ∧ op.result.isSome = true := by
  unfold authorizesEvent at h
  simp only [Bool.and_eq_true, decide_eq_true_eq] at h
  obtain ⟨htype, hop⟩ := h
  refine ⟨htype, ?_⟩
  split at hop
  · cases hop
  · rename_i op hfound
    obtain ⟨hmem, hid⟩ := nonEmpty_bind_findOperation hfound
    simp only [Bool.and_eq_true, decide_eq_true_eq, Bool.not_eq_true'] at hop
    obtain ⟨⟨hdone, hresult⟩, hknown⟩ := hop
    exact ⟨op, hmem, hid, ⟨hdone, hknown⟩, hresult⟩

end Owners

/-! ## One file -/

/-- The checks of the loop let the file go, and it is the file its owner created. -/
def Condemned (host : ArtifactHost) (plan : PrunePlan) (entry : ArtifactEntry) : Prop :=
  ∃ owned expired, condemned? host plan entry = some (owned, expired) ∧
    owned.owned.identity = entry.identity

section Pass

variable {host : ArtifactHost} {plan : PrunePlan} {clock : Timestamp}

/-- The map gives every file under its own path. -/
def PrunePlan.Keyed (plan : PrunePlan) : Prop :=
  ∀ path file, plan.ownedFiles path = some file → file.owned.path = path

/-- What the checks have found out about a file that goes. -/
structure Checked (host : ArtifactHost) (plan : PrunePlan) (entry : ArtifactEntry)
    (owned : OwnedFile) (expired : Bool) : Prop where
  regular : entry.isFile = true
  unprotected : entry.name ∉ plan.protectedFiles
  found : plan.ownedFiles (host.fs.resolve (host.filePath entry.name)) = some owned
  named : ((nonEmpty plan.filter.namePrefix).all fun p => hasPrefix p entry.name) = true
  expiry : expired? host plan.now owned.record = some expired
  age : expired = true ∨ tooYoung plan.filter plan.now entry = false

variable {entry : ArtifactEntry} {held : ArtifactFiles}

theorem condemned?_some {owned : OwnedFile} {expired : Bool}
    (h : condemned? host plan entry = some (owned, expired)) :
    Checked host plan entry owned expired := by
  unfold condemned? at h
  split at h
  · cases h
  rename_i hregular
  split at h
  · cases h
  rename_i hunprotected
  split at h
  · cases h
  rename_i found hfound
  split at h
  · cases h
  rename_i hnamed
  split at h
  · cases h
  rename_i lapsed hexpiry
  split at h
  · cases h
  rename_i hage
  cases h
  refine ⟨by simpa using hregular, hunprotected, hfound, by simpa using hnamed, hexpiry, ?_⟩
  cases expired with
  | true => exact .inl rfl
  | false => exact .inr (by simpa using hage)

theorem markDeleted_artifacts (owned : OwnedFile) (expired : Bool) (clock : Timestamp)
    (d : DomainFiles) :
    ((markDeleted owned expired clock).run d).1.artifacts = d.artifacts := by
  unfold markDeleted
  rw [run_bind, run_read]
  show ((Prog.onlyIf _ _).run d).1.artifacts = _
  unfold Prog.onlyIf
  split
  · rw [run_within]
    rfl
  · rfl

variable {d : DomainFiles}

/-- Removal by path takes out the entry of that path, when it is the recorded file. -/
theorem removeOwnedArtifact_run (hheld : d.artifacts = .files held) (hentry : entry ∈ held.rows)
    {artifact : OwnedArtifact}
    (hpath : artifact.path = host.fs.resolve (host.filePath entry.name)) :
    (∃ e, (removeOwnedArtifact host artifact).run d = (d, .error e)) ∨
    (artifact.identity = entry.identity ∧
      (removeOwnedArtifact host artifact).run d =
        ({ d with artifacts := .files (held.without entry.name) }, .ok ())) := by
  unfold removeOwnedArtifact
  rw [run_exec, hpath, hheld, held.lookup hentry host]
  simp only
  by_cases hsame : (!entry.isFile) = true ∨ entry.identity ≠ artifact.identity
  · rw [if_pos hsame]
    exact .inl ⟨_, rfl⟩
  · rw [if_neg hsame]
    rw [not_or, not_not] at hsame
    by_cases hremovable : (!entry.removable) = true
    · rw [if_pos hremovable]
      exact .inl ⟨_, rfl⟩
    · rw [if_neg hremovable]
      exact .inr ⟨hsame.2.symm, rfl⟩

/-- Either nothing happens and the file is retained, or the file goes and is not reported as
    retained. -/
theorem pruneFile_run (hkeyed : plan.Keyed) (hheld : d.artifacts = .files held)
    (hentry : entry ∈ held.rows) : (pruneFile host plan clock entry).run d = (d, .ok false) ∨
    (Condemned host plan entry ∧
      ((pruneFile host plan clock entry).run d).1.artifacts = .files (held.without entry.name) ∧
      ((pruneFile host plan clock entry).run d).2 ≠ .ok false) := by
  unfold pruneFile
  cases hcondemned : condemned? host plan entry with
  | none => exact .inl rfl
  | some decision =>
    obtain ⟨owned, expired⟩ := decision
    have hpath := hkeyed _ _ (condemned?_some hcondemned).found
    simp only
    rw [run_bind, run_tryCatch, run_bind]
    rcases removeOwnedArtifact_run hheld hentry hpath with ⟨e, hrefused⟩ | ⟨hsame, hremoved⟩
    · rw [hrefused]
      exact .inl rfl
    · right
      refine ⟨⟨owned, expired, hcondemned, hsame⟩, ?_⟩
      rw [hremoved]
      simp only [run_pure, if_true]
      rw [run_bind]
      have hartifacts := markDeleted_artifacts owned expired clock
        { d with artifacts := .files (held.without entry.name) }
      rcases hmark : (markDeleted owned expired clock).run
        { d with artifacts := .files (held.without entry.name) } with ⟨d', e | u⟩
      · rw [hmark] at hartifacts
        exact ⟨hartifacts, fun h => nomatch h⟩
      · rw [hmark] at hartifacts
        exact ⟨hartifacts, fun h => nomatch h⟩

/-! ## The whole pass -/

/-- What has become of the directory after a pass over some of its entries. -/
structure Passed (host : ArtifactHost) (plan : PrunePlan) (entries : List ArtifactEntry)
    (held held' : ArtifactFiles) : Prop where
  taken : ∀ entry ∈ held.rows, entry ∉ held'.rows → entry ∈ entries ∧ Condemned host plan entry
  kept : ∀ entry ∈ held'.rows, entry ∈ held.rows

/-- The report of a pass over some entries, by what the directory holds after it. -/
def PruneReport.Tells (host : ArtifactHost) (entries : List ArtifactEntry) (held' : ArtifactFiles)
    (report : PruneReport) : Prop :=
  report.deleted =
      (entries.filter fun entry => entry ∉ held'.rows).map (fun entry => host.filePath entry.name) ∧
    report.retained =
      (entries.filter fun entry => entry ∈ held'.rows).map fun entry => host.filePath entry.name

theorem mem_without {name : String} :
    entry ∈ (held.without name).rows ↔ entry ∈ held.rows ∧ entry.name ≠ name := by
  show entry ∈ (held.toTable.deleteWhere _).rows ↔ _
  rw [Table.mem_deleteWhere, decide_eq_false_iff_not]

theorem passed_without (hentry : entry ∈ held.rows) (hcondemned : Condemned host plan entry)
    (entries : List ArtifactEntry) :
    Passed host plan (entry :: entries) held (held.without entry.name) where
  taken other hother hgone := by
    rw [mem_without, not_and, not_not] at hgone
    rw [held.toTable.eq_of_key_eq hother hentry (hgone hother)]
    exact ⟨List.mem_cons_self, hcondemned⟩
  kept other hother := (mem_without.1 hother).1

/-- Every entry of the list is dealt with once: it is gone and reported as deleted, or it is there
    and reported as retained. -/
theorem pruneFiles_run (host : ArtifactHost) (clock : Timestamp) (hkeyed : plan.Keyed)
    (entries : List ArtifactEntry) (hdistinct : (entries.map ArtifactEntry.name).Nodup)
    (hheld : d.artifacts = .files held) (hentries : ∀ entry ∈ entries, entry ∈ held.rows) :
    ∃ held', ((pruneFiles host plan clock entries).run d).1.artifacts = .files held' ∧
      Passed host plan entries held held' ∧
      ∀ report, ((pruneFiles host plan clock entries).run d).2 = .ok report →
        report.Tells host entries held' := by
  induction entries generalizing d held with
  | nil =>
    refine ⟨held, hheld, ⟨fun entry hin hout => absurd hin hout, fun entry hin => hin⟩, ?_⟩
    intro report hreport
    obtain rfl := Except.ok.inj hreport
    exact ⟨rfl, rfl⟩
  | cons entry entries ih =>
    rw [List.map_cons, List.nodup_cons] at hdistinct
    obtain ⟨hfresh, hdistinct⟩ := hdistinct
    have hentry : entry ∈ held.rows := hentries entry List.mem_cons_self
    have hnotin : entry ∉ entries := fun hmem => hfresh (List.mem_map_of_mem hmem)
    unfold pruneFiles
    rw [run_bind]
    rcases pruneFile_run hkeyed hheld hentry with hrun | ⟨hcondemned, hartifacts, hanswer⟩
    · -- the file stays
      rw [hrun]
      obtain ⟨held', hheld', hpassed, htells⟩ := ih hdistinct hheld
        fun e he => hentries e (List.mem_cons_of_mem _ he)
      have hstays : entry ∈ held'.rows := by
        by_contra hgone
        exact hnotin (hpassed.taken entry hentry hgone).1
      simp only [run_bind_pure]
      refine ⟨held', hheld', ⟨fun e hin hout => ?_, hpassed.kept⟩, fun report hreport => ?_⟩
      · obtain ⟨hmem, hdead⟩ := hpassed.taken e hin hout
        exact ⟨List.mem_cons_of_mem _ hmem, hdead⟩
      · obtain ⟨rest, hrest, rfl⟩ := except_map_ok hreport
        obtain ⟨hdeleted, hretained⟩ := htells rest hrest
        constructor
        · rw [List.filter_cons_of_neg (by simpa using hstays)]
          exact hdeleted
        · rw [List.filter_cons_of_pos (by simpa using hstays), List.map_cons]
          exact congrArg _ hretained
    · rcases hfile : (pruneFile host plan clock entry).run d with ⟨d₁, e | deleted⟩
      · -- the row could not be updated: the pass ends here
        rw [hfile] at hartifacts
        exact ⟨_, hartifacts, passed_without hentry hcondemned entries, fun _ h => nomatch h⟩
      · rw [hfile] at hartifacts hanswer
        have hdeleted : deleted = true := by
          cases deleted with
          | false => exact absurd rfl hanswer
          | true => rfl
        subst hdeleted
        obtain ⟨held', hheld', hpassed, htells⟩ := ih hdistinct hartifacts fun e he =>
          mem_without.2 ⟨hentries e (List.mem_cons_of_mem _ he), fun hname =>
            hfresh (hname ▸ List.mem_map_of_mem he)⟩
        have hgone : entry ∉ held'.rows := fun hin =>
          (mem_without.1 (hpassed.kept entry hin)).2 rfl
        simp only [run_bind_pure]
        refine ⟨held', hheld', ⟨fun e hin hout => ?_, fun e hin => ?_⟩, fun report hreport => ?_⟩
        · by_cases hname : e.name = entry.name
          · rw [held.toTable.eq_of_key_eq hin hentry hname]
            exact ⟨List.mem_cons_self, hcondemned⟩
          · obtain ⟨hmem, hdead⟩ := hpassed.taken e (mem_without.2 ⟨hin, hname⟩) hout
            exact ⟨List.mem_cons_of_mem _ hmem, hdead⟩
        · exact (mem_without.1 (hpassed.kept e hin)).1
        · obtain ⟨rest, hrest, rfl⟩ := except_map_ok hreport
          obtain ⟨hdeleted, hretained⟩ := htells rest hrest
          constructor
          · rw [List.filter_cons_of_pos (by simpa using hgone), List.map_cons]
            exact congrArg _ hdeleted
          · rw [List.filter_cons_of_neg (by simpa using hgone)]
            exact hretained

end Pass

/-! ## Dead files and nothing else -/

section Main

variable {host : ArtifactHost} {filter : PruneFilter} {clock : Timestamp}

theorem expired?_some {now : Rat} {row : ArtifactRecord} {expired : Bool}
    (h : expired? host now (some row) = some expired) :
    (expired = true ∧ Expired host now row) ∨
      (expired = false ∧ nonEmpty row.expiresAt = none) := by
  unfold expired? at h
  rw [Option.bind_some] at h
  split at h
  · rename_i hnone
    exact .inr ⟨(Option.some.inj h).symm, hnone⟩
  · rename_i text htext
    split at h
    · cases h
    · rename_i t ht
      split at h
      · rename_i hpast
        exact .inl ⟨(Option.some.inj h).symm, text, t, htext, ht, hpast⟩
      · cases h

variable {entry : ArtifactEntry}

theorem oldEnough_of {now : Rat} (h : tooYoung filter now entry = false) :
    OldEnough filter now entry := by
  intro olderThanMs hfilter
  unfold tooYoung at h
  rw [hfilter] at h
  exact Rat.not_lt.1 (of_decide_eq_false h)

/-- A name that no operation and no snapshot protects. -/
theorem not_protected {s : SqliteStore} {domainId name : String}
    (h : name ∉ host.protectedFiles s domainId) :
    (∀ op ∈ s.getAllOperations domainId, name ∉ host.protectedBy op.toOperation) ∧
      ∀ snapshot ∈ s.listSnapshots domainId, name ∉ host.manifestsOf snapshot := by
  unfold ArtifactHost.protectedFiles at h
  rw [List.mem_append, not_or] at h
  exact ⟨fun op hop hmem => h.1 (List.mem_flatMap.2 ⟨op, hop, hmem⟩),
    fun snapshot hsnapshot hmem => h.2 (List.mem_flatMap.2 ⟨snapshot, hsnapshot, hmem⟩)⟩

/-- A name that an operation does not protect is none of its references. -/
theorem basename_ne_of_not_protectedBy {op : Operation} {name : String} (hname : name ≠ "")
    (h : name ∉ host.protectedBy op) {ref : Option String} (href : ref ∈ op.references)
    {file : String} (hfile : ref = some file) : basename file ≠ name := by
  rintro rfl
  refine h (List.mem_append_right _ (List.mem_flatMap.2 ⟨ref, href, ?_⟩))
  have hpresent : file ≠ "" := by
    rintro rfl
    exact hname (by decide)
  have hkept : nonEmpty (some file) = some file := by
    unfold nonEmpty
    rw [Option.filter_some, if_pos (decide_eq_true hpresent)]
  rw [hfile]
  unfold refName
  rw [hkept]
  exact List.mem_cons_self

/-- The owner of a file that passes the checks. -/
theorem owned_of_checked {d : ExecutionDomain} {owned : OwnedFile} {expired : Bool}
    (h : Checked host (prunePlan host filter clock d) entry owned expired)
    (hidentity : owned.owned.identity = entry.identity) :
    (∃ record, RecordOwns host d.store d.domainId entry record ∧
      (Expired host (filter.nowMs.getD clock) record ∨
        (nonEmpty record.expiresAt = none ∧
          OldEnough filter (filter.nowMs.getD clock) entry))) ∨
    (Unrecorded host d.store d.domainId entry ∧
      (∃ event, EventOwns host d.store d.domainId entry event) ∧
      OldEnough filter (filter.nowMs.getD clock) entry) := by
  have hjustified := justified_ownedFiles _ _ h.found
  have hexpiry := h.expiry
  cases hrecord : owned.record with
  | some row =>
    left
    obtain ⟨howned, hlisted, hauthorized⟩ := hjustified.record row hrecord
    obtain ⟨hpresent, habsolute, howner⟩ := of_authorizesRow hauthorized
    rw [hrecord] at hexpiry
    have hpath : host.fs.resolve row.path = host.fs.resolve (host.filePath entry.name) := by
      rw [← hjustified.keyed, howned]
      rfl
    have hsame : (⟨row.dev, row.ino, row.birthtimeNs⟩ : FileIdentity) = entry.identity := by
      rw [← hidentity, howned]
      rfl
    refine ⟨row, ⟨hlisted, hpresent, habsolute, hpath, hsame, howner⟩, ?_⟩
    rcases expired?_some hexpiry with ⟨-, hpast⟩ | ⟨hfalse, hnone⟩
    · exact .inl hpast
    · refine .inr ⟨hnone, oldEnough_of (h.age.resolve_left ?_)⟩
      rw [hfalse]
      exact Bool.false_ne_true
  | none =>
    right
    obtain ⟨event, hlisted, hauthorized, hcreated, hunrecorded⟩ := hjustified.event hrecord
    obtain ⟨htype, howner⟩ := of_authorizesEvent hauthorized
    rw [hrecord] at hexpiry
    have hexpired : expired = false := (Option.some.inj hexpiry).symm
    have hfile : createdArtifact? host.fs event =
        some ⟨host.fs.resolve (host.filePath entry.name), entry.identity⟩ := by
      rw [hcreated, ← hjustified.keyed, ← hidentity]
    refine ⟨hunrecorded, ⟨event, hlisted, htype, hfile, howner⟩,
      oldEnough_of (h.age.resolve_left ?_)⟩
    rw [hexpired]
    exact Bool.false_ne_true

theorem condemned_dead {d : ExecutionDomain} (hproper : ProperName entry.name)
    (h : Condemned host (prunePlan host filter clock d) entry) :
    ProvablyDead host d.store d.domainId filter (filter.nowMs.getD clock) entry := by
  obtain ⟨owned, expired, hcondemned, hidentity⟩ := h
  have hchecked := condemned?_some hcondemned
  obtain ⟨hoperations, hsnapshots⟩ := not_protected hchecked.unprotected
  refine ⟨hchecked.regular, owned_of_checked hchecked hidentity, ?_, ?_, ?_, ?_⟩
  · intro op hop ref href file hfile
    refine basename_ne_of_not_protectedBy ?_ (hoperations op hop) href hfile
    rintro hempty
    exact hproper.1 (by rw [hempty]; rfl)
  · intro snapshot hsnapshot hmanifest
    have hout := hsnapshots snapshot hsnapshot
    unfold ArtifactHost.manifestsOf at hout
    rw [if_pos hmanifest] at hout
    simpa using hout
  · intro op hop hopen hnamed
    refine hoperations op hop (List.mem_append_left _ ?_)
    rw [if_pos]
    · exact hnamed
    · by_contra hsettled
      rw [not_or, not_not, Bool.not_eq_true] at hsettled
      exact hopen hsettled
  · intro p hp
    have hall : ((nonEmpty filter.namePrefix).all fun p => hasPrefix p entry.name) = true :=
      hchecked.named
    rw [hp] at hall
    unfold nonEmpty at hall
    by_cases hempty : p = ""
    · rw [hempty]
      rfl
    · rw [Option.filter_some, if_pos (decide_eq_true hempty)] at hall
      exact hall

theorem ArtifactHost.filePath_injective (host : ArtifactHost) :
    Function.Injective host.filePath := by
  intro name name' h
  unfold filePath at h
  have hlist : (host.artifactsDir ++ "/").toList ++ name.toList =
      (host.artifactsDir ++ "/").toList ++ name'.toList := by
    rw [← String.toList_append, ← String.toList_append, h]
  exact String.toList_inj.1 (List.append_cancel_left hlist)

/-- A report of all entries names none of them twice. -/
theorem PruneReport.Tells.nodup {held held' : ArtifactFiles} {report : PruneReport}
    (h : report.Tells host held.rows held') : (report.deleted ++ report.retained).Nodup := by
  obtain ⟨hdeleted, hretained⟩ := h
  have hsplit := List.filter_append_perm (fun entry => decide (entry ∉ held'.rows)) held.rows
  have hother : (held.rows.filter fun entry => !decide (entry ∉ held'.rows)) =
      held.rows.filter fun entry => entry ∈ held'.rows :=
    List.filter_congr fun entry _ => by simp
  rw [hother] at hsplit
  rw [hdeleted, hretained, ← List.map_append, (hsplit.map _).nodup_iff]
  have hnames := held.nodup.map host.filePath_injective
  rwa [List.map_map] at hnames

/-- A call throws before it looks at a file, finds no directory, or goes through its files. -/
theorem pruneArtifacts_run (host : ArtifactHost) (filter : PruneFilter) (clock : Timestamp)
    (d : DomainFiles) :
    (∃ e, (pruneArtifacts host filter clock).run d = (d, .error e)) ∨
    (d.artifacts = .missing ∧ (pruneArtifacts host filter clock).run d = (d, .ok ⟨[], []⟩)) ∨
    ∃ held, d.artifacts = .files held ∧ (pruneArtifacts host filter clock).run d =
      (pruneFiles host (prunePlan host filter clock d.domain) clock held.rows).run d := by
  unfold pruneArtifacts
  rw [run_bind, run_check]
  cases d.domain.assertNotFenced with
  | error e => exact .inl ⟨e, rfl⟩
  | ok u =>
    simp only
    rw [run_bind, run_read]
    simp only
    cases d.artifacts with
    | missing => exact .inr (.inl ⟨rfl, rfl⟩)
    | notDirectory => exact .inl ⟨_, rfl⟩
    | files held => exact .inr (.inr ⟨held, rfl, rfl⟩)

/-- Whatever a pass takes out of the directory is provably dead, also when the pass throws half
    way.  A pass that returns reports every entry once: as deleted when it is gone, as retained
    when it is there. -/
theorem pruneArtifacts_prunesDead (host : ArtifactHost) (filter : PruneFilter) (clock : Timestamp)
    (d : DomainFiles) :
    let after := ((pruneArtifacts host filter clock).run d).1.artifacts.entries
    (∀ entry ∈ d.artifacts.entries, entry ∉ after →
      ProvablyDead host d.domain.store d.domain.domainId filter (filter.nowMs.getD clock) entry) ∧
    (∀ entry ∈ after, entry ∈ d.artifacts.entries) ∧
    ∀ report, ((pruneArtifacts host filter clock).run d).2 = .ok report →
      report.deleted = (d.artifacts.entries.filter fun entry => entry ∉ after).map
        (fun entry => host.filePath entry.name) ∧
      report.retained = (d.artifacts.entries.filter fun entry => entry ∈ after).map
        (fun entry => host.filePath entry.name) ∧
      (report.deleted ++ report.retained).Nodup := by
  rcases pruneArtifacts_run host filter clock d with
    ⟨e, hrun⟩ | ⟨hmissing, hrun⟩ | ⟨held, hheld, hrun⟩
  · rw [hrun]
    exact ⟨fun entry hin hout => absurd hin hout, fun entry hin => hin, fun _ h => nomatch h⟩
  · rw [hrun]
    refine ⟨fun entry hin hout => absurd hin hout, fun entry hin => hin, fun report hreport => ?_⟩
    obtain rfl := Except.ok.inj hreport
    simp only [hmissing]
    exact ⟨rfl, rfl, List.nodup_nil⟩
  · have hkeyed : (prunePlan host filter clock d.domain).Keyed := fun path file hfile =>
      (justified_ownedFiles path file hfile).keyed
    have hpass := pruneFiles_run host clock hkeyed held.rows held.nodup
      hheld fun entry hentry => hentry
    obtain ⟨held', hheld', hpassed, htells⟩ := hpass
    rw [hrun]
    simp only [hheld', hheld]
    refine ⟨fun entry hin hout => ?_, hpassed.kept, fun report hreport => ?_⟩
    · exact condemned_dead (held.proper entry hin) (hpassed.taken entry hin hout).2
    · have htold := htells report hreport
      exact ⟨htold.1, htold.2, htold.nodup⟩

end Main

/-! ## Expired rows and young files -/

/-- The directory `/d/artifacts`; the only text of a time is that of a tenth of a second. -/
def sampleHost : ArtifactHost where
  fs := ⟨[], fun _ => none, fun _ => false⟩
  artifactsDir := "/d/artifacts"
  sha256 bytes := bytes.map fun b => Char.ofNat b.toNat
  dateParse text := if text = "1970-01-01T00:00:00.100Z" then some 100 else none

def youngEntry : ArtifactEntry where
  name := "old.log"
  isFile := true
  identity := ⟨"1", "2", "3"⟩
  mtimeMs := 150

def expiredRow : ArtifactRecord where
  id := "artifact:1"
  domainId := "d"
  ownerOperationId := some "o"
  path := "/d/artifacts/old.log"
  createdAt := 1
  expiresAt := some "1970-01-01T00:00:00.100Z"
  sensitivity := "internal"
  encryptionState := "plaintext"
  deletionState := "present"
  dev := "1"
  ino := "2"
  birthtimeNs := "3"

/-- One file, whose row has expired, of an operation that is done. -/
def expiredFile : DomainFiles where
  domain := {
    domainId := "d"
    store := {
      db := { Database.sample with
        operations := ⟨[{ Operation.sample "o" [] with domainId := "d", status := .done }],
          by simp⟩
        artifacts := ⟨[expiredRow], by simp⟩ }
      currentEpoch := some 1 }
    epoch := 1 }
  artifacts := .files
    { rows := [youngEntry]
      nodup := by simp
      proper := by
        intro entry hentry
        rw [List.mem_singleton.1 hentry]
        unfold ProperName
        decide }

/-- The age that the filter asks for does not keep a file whose row has expired. -/
theorem expired_file_pruned_young :
    let filter : PruneFilter := { olderThanMs := some 1000, nowMs := some 200 }
    youngEntry ∈ expiredFile.artifacts.entries ∧
      youngEntry ∉ ((pruneArtifacts sampleHost filter 200).run expiredFile).1.artifacts.entries ∧
      ¬ OldEnough filter 200 youngEntry := by
  refine ⟨List.mem_cons_self, by decide +kernel, fun hold => ?_⟩
  have hage := hold 1000 rfl
  revert hage
  decide +kernel

end XioFlow
