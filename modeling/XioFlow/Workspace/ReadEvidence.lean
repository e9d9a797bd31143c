/-
  XioFlow.Workspace.ReadEvidence

  The evidence of what was read in the fork of an open transaction: access
  times are scanned, journaled as TX_READS, and set back.

  A fork is the list of its entries in the order the walks come to them.  A
  walk that throws has visited the entries before some point.  What a
  transaction keeps in memory is what TX_BEGUN says, so a restart changes
  nothing here.  The incremental index that goes with the effects is in
  XioFlow.Workspace.IncrementalIndex.
-/

import XioFlow.Workspace.IncrementalIndex
import XioFlow.Lib.Transition

namespace XioFlow

open Lib

namespace Evidence

/-! ## Forks -/

inductive EntryKind where
  | file | dir | symlink
  deriving DecidableEq

/-- An entry of a fork, by its path relative to the root; the root itself is empty. -/
structure ForkEntry where
  rel : String
  kind : EntryKind
  atimeNs : Int
  mtimeNs : Int
  deriving DecidableEq

namespace ForkEntry

/-- How the entry is listed: directories with a final slash. -/
def key (e : ForkEntry) : String :=
  if e.kind = .dir then (if e.rel = "" then "." else e.rel) ++ "/" else e.rel

def wasAccessed (e : ForkEntry) : Bool := e.mtimeNs ≤ e.atimeNs

/-- `ATIME_MARGIN_S` -/
def atimeMarginNs : Int := 2000000000

def resetAccessTime (e : ForkEntry) : ForkEntry := { e with atimeNs := e.mtimeNs - atimeMarginNs }

/-- The entry was read at this time; access times do not go back. -/
def readAt (now : Int) (e : ForkEntry) : ForkEntry := { e with atimeNs := max e.atimeNs now }

/-- The names that are skipped at the top of a fork. -/
def defaultSkip : List String := [".git", ".xioflow-kernel", ".xioflow"]

/-- The walks do not come to the entry. -/
def skipped (e : ForkEntry) : Bool :=
  defaultSkip.any fun name => e.rel = name || hasPrefix (name ++ "/") e.rel

end ForkEntry

open ForkEntry (wasAccessed resetAccessTime readAt skipped)

abbrev Fork := List ForkEntry

/-! ## The walks -/

/-- `walk`: all entries it comes to. -/
def walk (fork : Fork) : List ForkEntry := fork.filter fun e => !e.skipped

/-- The entries a walk has visited; it throws after some of them, or not at all. -/
def visited (fork : Fork) (throwsAfter : Option Nat) : List ForkEntry :=
  match throwsAfter with
  | none => walk fork
  | some n => (walk fork).take n

/-- The links among the entries. -/
def linksOf (entries : List ForkEntry) : List String :=
  (entries.filter fun e => e.kind = .symlink).map ForkEntry.rel

/-- The entries whose access time tells of a read; a link's does not. -/
def readsOf (entries : List ForkEntry) : List String :=
  (entries.filter fun e => e.kind ≠ .symlink && e.wasAccessed).map ForkEntry.key

structure WorkspaceObservationIndex where
  readSet : List String
  discoverySet : List String
  pathDependencies : List String

def collectWorkspaceObservationIndex (fork : Fork) : Option Nat → Option WorkspaceObservationIndex
  | some _ => none
  | none => some {
      readSet := sortTexts (readsOf (walk fork))
      discoverySet := sortTexts ((walk fork).map ForkEntry.key)
      pathDependencies := sortTexts (linksOf (walk fork)) }

/-- Where setting the access times back has thrown. -/
inductive NormalizeFailure where
  | walking (visited : Nat)
  | resetting (dirs : Nat)

/-- The entries whose access times are set back: files during the walk, directories after it, the
    innermost first. -/
def resetBy (fork : Fork) : Option NormalizeFailure → List ForkEntry
  | none => (walk fork).filter (·.kind = .file) ++ ((walk fork).filter (·.kind = .dir)).reverse
  | some (.walking n) => ((walk fork).take n).filter (·.kind = .file)
  | some (.resetting n) =>
    (walk fork).filter (·.kind = .file) ++ (((walk fork).filter (·.kind = .dir)).reverse).take n

/-- The entries that the walk which sets access times back has come to. -/
def walkedBy (fork : Fork) : Option NormalizeFailure → List ForkEntry
  | some (.walking n) => (walk fork).take n
  | _ => walk fork

/-- `normalizeAccessTimes`: the fork afterwards, and the links it returns unless it throws. -/
def normalizeAccessTimes (fork : Fork) (failure : Option NormalizeFailure) :
    Fork × Option (List String) :=
  (fork.map fun e => if e ∈ resetBy fork failure then e.resetAccessTime else e,
    if failure.isNone then some (sortTexts (linksOf (walk fork))) else none)

/-! ## Transactions -/

/-- A TX_READS event. -/
structure ReadsEvent where
  readSet : Option (List String)
  pathDependencies : Option (List String)

/-- The part of the effects that says what was read. -/
structure ReadEffects where
  readSet : Option (List String)
  pathDependencies : Option (List String)
  deriving DecidableEq

/-- An open transaction; `observed` and `seenLinks` are what its evidence is held against. -/
structure OpenTransaction where
  readTracking : ReadTracking
  /-- The links when it began; none where TX_BEGUN does not say. -/
  pathDependencies : Option (List String)
  fork : Fork
  /-- The TX_READS events so far. -/
  earlier : List ReadsEvent := []
  /-- The entries whose access was recorded since it began. -/
  observed : List String := []
  /-- The links that a walk has come to since it began. -/
  seenLinks : List String := []
  closed : Bool := false

namespace OpenTransaction

/-- The end of `begin`: access times are set back, or the links are collected without them. -/
def start (readTracking : ReadTracking) (fork : Fork) : OpenTransaction where
  readTracking
  pathDependencies := some (sortTexts (linksOf (walk fork)))
  fork := if readTracking = .atime then (normalizeAccessTimes fork none).1 else fork
  seenLinks := linksOf (walk fork)

def recordedReads (tx : OpenTransaction) : List String :=
  tx.earlier.flatMap fun e => e.readSet.getD []

def recordedLinks (tx : OpenTransaction) : List String :=
  tx.earlier.flatMap fun e => e.pathDependencies.getD []

/-- What `effects` says was read, after a scan that may have thrown. -/
def readEffects (tx : OpenTransaction) (scan : Option WorkspaceObservationIndex) : ReadEffects where
  readSet :=
    match scan with
    | some currentReads =>
      if tx.readTracking = .atime then
        some (uniqueSorted (tx.recordedReads ++ currentReads.readSet))
      else none
    | none => none
  pathDependencies :=
    match scan, tx.pathDependencies with
    | some currentReads, some atBegin =>
      some (uniqueSorted (atBegin ++ tx.recordedLinks ++ currentReads.pathDependencies))
    | _, _ => none

/-- Where a call of `effects` ends. -/
inductive Ending where
  /-- Before TX_READS: no base snapshot, no journal, or a crash. -/
  | unrecorded
  /-- After TX_READS: git has read some files, and then it failed, or a crash. -/
  | interrupted (touched : List (String × Int))
  /-- Git has read some files, and the access times are set back, if that does not throw. -/
  | finished (touched : List (String × Int)) (failure : Option NormalizeFailure)

/-- What a call of `effects` meets. -/
structure EffectsRun where
  scanThrowsAfter : Option Nat
  ending : Ending

/-- Git has read files, each at its time. -/
def touch (touched : List (String × Int)) (e : ForkEntry) : ForkEntry :=
  touched.foldl (fun e t => if e.rel = t.1 then e.readAt t.2 else e) e

/-- `effects`: the transaction afterwards, and what is returned, if anything is. -/
def effects (tx : OpenTransaction) (run : EffectsRun) : OpenTransaction × Option ReadEffects :=
  let result := tx.readEffects (collectWorkspaceObservationIndex tx.fork run.scanThrowsAfter)
  let scanned : OpenTransaction := { tx with
    seenLinks := tx.seenLinks ++ linksOf (visited tx.fork run.scanThrowsAfter) }
  let event : ReadsEvent := ⟨result.readSet, result.pathDependencies⟩
  let recorded : OpenTransaction := { scanned with earlier := tx.earlier ++ [event] }
  match run.ending with
  | .unrecorded => (scanned, none)
  | .interrupted touched => ({ recorded with fork := tx.fork.map (touch touched) }, none)
  | .finished touched failure =>
    let read := tx.fork.map (touch touched)
    if tx.readTracking = .atime then
      ({ recorded with
          fork := (normalizeAccessTimes read failure).1
          -- the walk that sets access times back comes to links, too
          seenLinks := scanned.seenLinks ++ linksOf (walkedBy read failure) },
        if failure.isNone then some result else none)
    else ({ recorded with fork := read }, some result)

/-! ## Steps -/

inductive Step where
  /-- The agent reads a file or lists a directory; a link is read through. -/
  | read (rel : String) (now : Int)
  /-- The agent changes its fork. -/
  | edit (fork : Fork)
  | inspect (run : EffectsRun)
  /-- A commit collects the effects; it goes on to close the transaction, or throws. -/
  | commit (run : EffectsRun) (closes : Bool)

/-- The entry is the one that the agent reads. -/
def readsEntry (rel : String) (e : ForkEntry) : Bool := e.rel = rel && e.kind ≠ .symlink

/-- The fork after a read: the access time moves. -/
def readFork (rel : String) (now : Int) (fork : Fork) : Fork :=
  fork.map fun e => if readsEntry rel e then e.readAt now else e

def after (step : Step) (tx : OpenTransaction) : OpenTransaction :=
  if tx.closed then tx
  else
    match step with
    | .read rel now =>
      { tx with
        fork := readFork rel now tx.fork
        -- a read that does not move the access time up to the modification time is not recorded
        observed := ((readFork rel now tx.fork).filter fun e =>
          readsEntry rel e && e.wasAccessed).map ForkEntry.key ++ tx.observed }
    | .edit fork => { tx with fork }
    | .inspect run => (tx.effects run).1
    | .commit run closes => { (tx.effects run).1 with closed := closes && (tx.effects run).2.isSome }

/-- What a step returns of the effects; validation is given the same. -/
def returns (step : Step) (tx : OpenTransaction) : Option ReadEffects :=
  if tx.closed then none
  else
    match step with
    | .inspect run | .commit run _ => (tx.effects run).2
    | _ => none

/-- Where effects are returned, their read set is unknown or has every entry whose access was
    recorded, and their links are unknown or have every link that was seen. -/
def KeepsEvidence (tx : OpenTransaction) (step : Step) : Prop :=
  ∀ e, tx.returns step = some e →
    (∀ reads, e.readSet = some reads → ∀ k ∈ tx.observed, k ∈ reads) ∧
    (∀ links, e.pathDependencies = some links → ∀ l ∈ (tx.after step).seenLinks, l ∈ links)

/-- The entry is in the journal, so its access time may go. -/
def Journaled (tx : OpenTransaction) (e : ForkEntry) : Prop := e.key ∈ tx.recordedReads

/-- A call of `effects` whose scan has thrown sets back no access time that tells of a read which
    the journal does not have. -/
def RunKeeps (tx : OpenTransaction) (run : EffectsRun) : Prop :=
  ∀ n touched failure, run.scanThrowsAfter = some n → run.ending = .finished touched failure →
    tx.readTracking = .atime → ∀ e ∈ tx.fork, e.wasAccessed = true →
      touch touched e ∈ resetBy (tx.fork.map (touch touched)) failure → tx.Journaled e

/-- The step destroys no evidence.  Nothing is read where the walks do not go; the agent's own
    changes leave the access times of what it has read since the last TX_READS and the links that
    no TX_READS has; and after a scan that has thrown the access times stay. -/
def Keeps (tx : OpenTransaction) : Step → Prop
  | .read rel _ => tx.readTracking = .atime → ∀ e ∈ tx.fork, e.rel = rel → e.skipped = false
  | .edit fork =>
    (tx.readTracking = .atime → ∀ k ∈ readsOf (walk tx.fork),
      k ∈ tx.recordedReads ∨ k ∈ readsOf (walk fork)) ∧
    ∀ l ∈ tx.seenLinks, l ∈ linksOf (walk tx.fork) →
      l ∈ tx.pathDependencies.getD [] ∨ l ∈ tx.recordedLinks ∨ l ∈ linksOf (walk fork)
  | .inspect run | .commit run _ => tx.RunKeeps run

/-! ## The evidence is somewhere -/

/-- What was read is in the journal or in an access time; links are in TX_BEGUN, in the journal or
    in the fork. -/
structure Evident (tx : OpenTransaction) : Prop where
  reads : tx.readTracking = .atime →
    ∀ k ∈ tx.observed, k ∈ tx.recordedReads ∨ k ∈ readsOf (walk tx.fork)
  links : ∀ l ∈ tx.seenLinks,
    l ∈ tx.pathDependencies.getD [] ∨ l ∈ tx.recordedLinks ∨ l ∈ linksOf (walk tx.fork)

end OpenTransaction

/-! ## The walks after a change of times -/

theorem mem_readsOf {entries : List ForkEntry} {k : String} :
    k ∈ readsOf entries ↔
      ∃ e ∈ entries, e.kind ≠ .symlink ∧ e.wasAccessed = true ∧ e.key = k := by
  unfold readsOf
  simp only [List.mem_map, List.mem_filter, Bool.and_eq_true, decide_eq_true_eq]
  constructor
  · rintro ⟨e, ⟨he, hkind, haccessed⟩, hkey⟩
    exact ⟨e, he, hkind, haccessed, hkey⟩
  · rintro ⟨e, he, hkind, haccessed, hkey⟩
    exact ⟨e, ⟨he, hkind, haccessed⟩, hkey⟩

variable {e : ForkEntry}

theorem mem_walk {fork : Fork} : e ∈ walk fork ↔ e ∈ fork ∧ e.skipped = false := by
  unfold walk
  rw [List.mem_filter, Bool.not_eq_true']

/-- A change that leaves paths and kinds alone. -/
def OnlyTimes (f : ForkEntry → ForkEntry) : Prop := ∀ e, (f e).rel = e.rel ∧ (f e).kind = e.kind

variable {f : ForkEntry → ForkEntry}

theorem OnlyTimes.key (h : OnlyTimes f) (e : ForkEntry) : (f e).key = e.key := by
  unfold ForkEntry.key
  rw [(h e).1, (h e).2]

theorem OnlyTimes.skipped (h : OnlyTimes f) (e : ForkEntry) : (f e).skipped = e.skipped := by
  unfold ForkEntry.skipped
  rw [(h e).1]

theorem OnlyTimes.comp {g : ForkEntry → ForkEntry} (hf : OnlyTimes f) (hg : OnlyTimes g) :
    OnlyTimes (g ∘ f) := fun e =>
  ⟨(hg (f e)).1.trans (hf e).1, (hg (f e)).2.trans (hf e).2⟩

theorem walk_map (h : OnlyTimes f) (fork : Fork) : walk (fork.map f) = (walk fork).map f := by
  unfold walk
  rw [List.filter_map]
  congr 1
  apply List.filter_congr
  intro e _
  show (!(f e).skipped) = !e.skipped
  rw [h.skipped]

theorem linksOf_map (h : OnlyTimes f) (entries : List ForkEntry) :
    linksOf (entries.map f) = linksOf entries := by
  unfold linksOf
  rw [List.filter_map, List.map_map]
  have hfilter : entries.filter ((fun e => decide (e.kind = .symlink)) ∘ f) =
      entries.filter fun e => e.kind = .symlink := by
    apply List.filter_congr
    intro e _
    show decide ((f e).kind = .symlink) = _
    rw [(h e).2]
  rw [hfilter]
  apply List.map_congr_left
  intro e _
  exact (h e).1

/-- Links do not depend on times. -/
theorem linksOf_walk_map (h : OnlyTimes f) (fork : Fork) :
    linksOf (walk (fork.map f)) = linksOf (walk fork) := by
  rw [walk_map h, linksOf_map h]

/-- A change of times keeps the evidence of a read where it keeps the entry accessed. -/
theorem readsOf_walk_map (h : OnlyTimes f) {fork : Fork} (he : e ∈ walk fork)
    (hkind : e.kind ≠ .symlink) (haccessed : (f e).wasAccessed = true) :
    e.key ∈ readsOf (walk (fork.map f)) := by
  rw [walk_map h, mem_readsOf]
  refine ⟨f e, List.mem_map_of_mem he, ?_, haccessed, h.key e⟩
  rw [(h e).2]
  exact hkind

theorem linksOf_take_subset (entries : List ForkEntry) (n : Nat) :
    linksOf (entries.take n) ⊆ linksOf entries := by
  unfold linksOf
  exact List.map_subset _ (List.filter_subset _ (List.take_subset n entries))

theorem linksOf_visited_subset (fork : Fork) (throwsAfter : Option Nat) :
    linksOf (visited fork throwsAfter) ⊆ linksOf (walk fork) := by
  cases throwsAfter with
  | none => exact fun l hl => hl
  | some n => exact linksOf_take_subset (walk fork) n

theorem linksOf_walkedBy_subset (fork : Fork) (failure : Option NormalizeFailure) :
    linksOf (walkedBy fork failure) ⊆ linksOf (walk fork) := by
  unfold walkedBy
  split
  · exact linksOf_take_subset (walk fork) _
  · exact fun l hl => hl

theorem onlyTimes_readAt (now : Int) : OnlyTimes (readAt now) := fun _ => ⟨rfl, rfl⟩

theorem onlyTimes_resetAccessTime : OnlyTimes resetAccessTime := fun _ => ⟨rfl, rfl⟩

theorem onlyTimes_ite (h : OnlyTimes f) (p : ForkEntry → Prop) [DecidablePred p] :
    OnlyTimes fun e => if p e then f e else e := by
  intro e
  show (if p e then f e else e).rel = e.rel ∧ (if p e then f e else e).kind = e.kind
  by_cases hp : p e
  · rw [if_pos hp]
    exact h e
  · rw [if_neg hp]
    exact ⟨rfl, rfl⟩

theorem wasAccessed_readAt {now : Int} (h : e.wasAccessed = true) :
    (e.readAt now).wasAccessed = true := by
  have hbefore : e.mtimeNs ≤ e.atimeNs := of_decide_eq_true h
  have hafter : e.mtimeNs ≤ max e.atimeNs now := by omega
  exact decide_eq_true hafter

namespace OpenTransaction

theorem onlyTimes_touch (touched : List (String × Int)) : OnlyTimes (touch touched) := by
  intro e
  unfold touch
  induction touched generalizing e with
  | nil => exact ⟨rfl, rfl⟩
  | cons t rest ih =>
    have hfirst := onlyTimes_ite (onlyTimes_readAt t.2) (fun e => e.rel = t.1) e
    have hrest := ih (if e.rel = t.1 then e.readAt t.2 else e)
    exact ⟨hrest.1.trans hfirst.1, hrest.2.trans hfirst.2⟩

theorem wasAccessed_touch (touched : List (String × Int)) {e : ForkEntry}
    (h : e.wasAccessed = true) : (touch touched e).wasAccessed = true := by
  unfold touch
  induction touched generalizing e with
  | nil => exact h
  | cons t rest ih =>
    apply ih
    show (if e.rel = t.1 then e.readAt t.2 else e).wasAccessed = true
    by_cases hrel : e.rel = t.1
    · rw [if_pos hrel]
      exact wasAccessed_readAt h
    · rw [if_neg hrel]
      exact h

theorem onlyTimes_readsEntry (rel : String) (now : Int) :
    OnlyTimes fun e => if readsEntry rel e then e.readAt now else e :=
  onlyTimes_ite (onlyTimes_readAt now) (fun e => readsEntry rel e = true)

/-! ## One call of `effects` -/

section Effects

variable (tx : OpenTransaction) (run : EffectsRun)

/-- What the call says was read. -/
def said : ReadEffects := tx.readEffects (collectWorkspaceObservationIndex tx.fork run.scanThrowsAfter)

/-- The fork after git has read, before access times are set back. -/
def readByGit (touched : List (String × Int)) : Fork := tx.fork.map (touch touched)

theorem said_readSet {reads : List String} (h : (tx.said run).readSet = some reads) :
    tx.readTracking = .atime ∧ ∀ k, k ∈ tx.recordedReads ∨ k ∈ readsOf (walk tx.fork) → k ∈ reads := by
  unfold said readEffects at h
  cases hscan : run.scanThrowsAfter with
  | some n =>
    rw [hscan] at h
    cases h
  | none =>
    rw [hscan] at h
    simp only [collectWorkspaceObservationIndex] at h
    by_cases htracking : tx.readTracking = .atime
    · rw [if_pos htracking] at h
      refine ⟨htracking, fun k hk => ?_⟩
      rw [← Option.some.inj h, mem_uniqueSorted, List.mem_append, mem_sortTexts]
      exact hk
    · rw [if_neg htracking] at h
      cases h

theorem said_pathDependencies {links : List String}
    (h : (tx.said run).pathDependencies = some links) :
    ∀ l, l ∈ tx.pathDependencies.getD [] ∨ l ∈ tx.recordedLinks ∨ l ∈ linksOf (walk tx.fork) →
      l ∈ links := by
  unfold said readEffects at h
  cases hscan : run.scanThrowsAfter with
  | some n =>
    rw [hscan] at h
    cases h
  | none =>
    rw [hscan] at h
    cases hbegin : tx.pathDependencies with
    | none =>
      rw [hbegin] at h
      cases h
    | some =>
      rw [hbegin] at h
      simp only [collectWorkspaceObservationIndex] at h
      intro l hl
      rw [← Option.some.inj h, mem_uniqueSorted, List.mem_append, List.mem_append,
        mem_sortTexts, or_assoc]
      exact hl

end Effects

/-! ## What keeps the evidence -/

section Evident

variable {tx : OpenTransaction}

theorem evident_start (readTracking : ReadTracking) (fork : Fork) :
    (start readTracking fork).Evident where
  reads := fun _ k hk => absurd hk List.not_mem_nil
  links := by
    intro l hl
    refine .inl ?_
    show l ∈ sortTexts (linksOf (walk fork))
    exact mem_sortTexts.2 hl

/-- Links that are in the fork may be seen. -/
theorem Evident.see (h : tx.Evident) {seen : List String} (hseen : seen ⊆ linksOf (walk tx.fork)) :
    Evident { tx with seenLinks := tx.seenLinks ++ seen } where
  reads := h.reads
  links := by
    intro l hl
    rcases List.mem_append.1 hl with hbefore | hnow
    · exact h.links l hbefore
    · exact .inr (.inr (hseen hnow))

theorem recordedReads_record (tx : OpenTransaction) (event : ReadsEvent) :
    recordedReads { tx with earlier := tx.earlier ++ [event] } =
      tx.recordedReads ++ event.readSet.getD [] := by
  unfold recordedReads
  simp

theorem recordedLinks_record (tx : OpenTransaction) (event : ReadsEvent) :
    recordedLinks { tx with earlier := tx.earlier ++ [event] } =
      tx.recordedLinks ++ event.pathDependencies.getD [] := by
  unfold recordedLinks
  simp

/-- One more TX_READS takes nothing away. -/
theorem Evident.record (h : tx.Evident) (event : ReadsEvent) :
    Evident { tx with earlier := tx.earlier ++ [event] } where
  reads := by
    intro htracking k hk
    rcases h.reads htracking k hk with hjournal | hfork
    · refine .inl ?_
      rw [recordedReads_record]
      exact List.mem_append_left _ hjournal
    · exact .inr hfork
  links := by
    intro l hl
    rcases h.links l hl with hbegin | hjournal | hfork
    · exact .inl hbegin
    · refine .inr (.inl ?_)
      rw [recordedLinks_record]
      exact List.mem_append_left _ hjournal
    · exact .inr (.inr hfork)

/-- A change of times may hide only the reads that the journal has. -/
theorem Evident.times (h : tx.Evident) {f : ForkEntry → ForkEntry} (hf : OnlyTimes f)
    (hkeeps : tx.readTracking = .atime → ∀ e ∈ walk tx.fork, e.wasAccessed = true →
      e.kind ≠ .symlink → (f e).wasAccessed = true ∨ tx.Journaled e) :
    Evident { tx with fork := tx.fork.map f } where
  reads := by
    intro htracking k hk
    rcases h.reads htracking k hk with hjournal | hfork
    · exact .inl hjournal
    · obtain ⟨e, he, hkind, haccessed, rfl⟩ := mem_readsOf.1 hfork
      rcases hkeeps htracking e he haccessed hkind with hstill | hjournal
      · exact .inr (readsOf_walk_map hf he hkind hstill)
      · exact .inl hjournal
  links := by
    intro l hl
    show l ∈ tx.pathDependencies.getD [] ∨ l ∈ tx.recordedLinks ∨ l ∈ linksOf (walk (tx.fork.map f))
    rw [linksOf_walk_map hf]
    exact h.links l hl

/-- What setting access times back does to one entry. -/
def resetIn (fork : Fork) (failure : Option NormalizeFailure) (e : ForkEntry) : ForkEntry :=
  if e ∈ resetBy fork failure then e.resetAccessTime else e

theorem onlyTimes_resetIn (fork : Fork) (failure : Option NormalizeFailure) :
    OnlyTimes (resetIn fork failure) :=
  onlyTimes_ite onlyTimes_resetAccessTime (fun e => e ∈ resetBy fork failure)

variable {run : EffectsRun}

/-- The scan's read set goes into the journal, so the access times of what it saw may go. -/
theorem journaled_said (hscan : run.scanThrowsAfter = none)
    (htracking : tx.readTracking = .atime) {e : ForkEntry} (he : e ∈ walk tx.fork)
    (haccessed : e.wasAccessed = true) (hkind : e.kind ≠ .symlink) :
    e.key ∈ ((tx.said run).readSet).getD [] := by
  unfold said readEffects
  rw [hscan]
  simp only [collectWorkspaceObservationIndex]
  rw [if_pos htracking, Option.getD_some, mem_uniqueSorted, List.mem_append, mem_sortTexts]
  exact .inr (mem_readsOf.2 ⟨e, he, hkind, haccessed, rfl⟩)

/-- What a call of `effects` has come to when TX_READS is written. -/
def recordedBy (tx : OpenTransaction) (run : EffectsRun) : OpenTransaction :=
  { tx with
    seenLinks := tx.seenLinks ++ linksOf (visited tx.fork run.scanThrowsAfter)
    earlier := tx.earlier ++ [⟨(tx.said run).readSet, (tx.said run).pathDependencies⟩] }

theorem Evident.recordedBy (h : tx.Evident) (run : EffectsRun) : (tx.recordedBy run).Evident :=
  (h.see (linksOf_visited_subset tx.fork run.scanThrowsAfter)).record
    ⟨(tx.said run).readSet, (tx.said run).pathDependencies⟩

/-- Setting access times back is safe after TX_READS, unless the scan has thrown and a read is only
    in an access time. -/
theorem Evident.reset (h : tx.Evident) (htracking : tx.readTracking = .atime)
    {touched : List (String × Int)} {failure : Option NormalizeFailure}
    (hending : run.ending = .finished touched failure) (hrun : tx.RunKeeps run) :
    Evident { tx.recordedBy run with
      fork := (tx.readByGit touched).map (resetIn (tx.readByGit touched) failure) } := by
  have hmap : (tx.readByGit touched).map (resetIn (tx.readByGit touched) failure) =
      tx.fork.map (resetIn (tx.readByGit touched) failure ∘ touch touched) := List.map_map
  rw [hmap]
  refine (h.recordedBy run).times
    ((onlyTimes_touch touched).comp (onlyTimes_resetIn (tx.readByGit touched) failure)) ?_
  intro _ e he haccessed hkind
  show (resetIn (tx.readByGit touched) failure (touch touched e)).wasAccessed = true ∨
    e.key ∈ recordedReads { tx with earlier := tx.earlier ++
      [⟨(tx.said run).readSet, (tx.said run).pathDependencies⟩] }
  rw [recordedReads_record]
  by_cases hreset : touch touched e ∈ resetBy (tx.readByGit touched) failure
  · refine .inr (List.mem_append.2 ?_)
    cases hscan : run.scanThrowsAfter with
    | none => exact .inr (journaled_said hscan htracking he haccessed hkind)
    | some n =>
      have hfork : e ∈ tx.fork := (mem_walk.1 he).1
      exact .inl (hrun n touched failure hscan hending htracking e hfork haccessed hreset)
  · refine .inl ?_
    unfold resetIn
    rw [if_neg hreset]
    exact wasAccessed_touch touched haccessed

/-- A call of `effects` that sets back only what the journal has keeps the evidence. -/
theorem Evident.effects (h : tx.Evident) (hrun : tx.RunKeeps run) :
    (tx.effects run).1.Evident := by
  have hrecorded : (tx.recordedBy run).Evident := h.recordedBy run
  have htouched : ∀ touched, Evident { tx.recordedBy run with fork := tx.readByGit touched } :=
    fun touched => hrecorded.times (onlyTimes_touch touched)
      fun _ e _ haccessed _ => .inl (wasAccessed_touch touched haccessed)
  cases hending : run.ending with
  | unrecorded =>
    have heq : (tx.effects run).1 = { tx with
        seenLinks := tx.seenLinks ++ linksOf (visited tx.fork run.scanThrowsAfter) } := by
      unfold OpenTransaction.effects
      rw [hending]
    rw [heq]
    exact h.see (linksOf_visited_subset tx.fork run.scanThrowsAfter)
  | interrupted touched =>
    have heq : (tx.effects run).1 =
        { tx.recordedBy run with fork := tx.readByGit touched } := by
      unfold OpenTransaction.effects
      rw [hending]
      rfl
    rw [heq]
    exact htouched touched
  | finished touched failure =>
    by_cases htracking : tx.readTracking = .atime
    · have heq : (tx.effects run).1 =
          { tx.recordedBy run with
            fork := (tx.readByGit touched).map (resetIn (tx.readByGit touched) failure)
            seenLinks := (tx.recordedBy run).seenLinks ++
              linksOf (walkedBy (tx.readByGit touched) failure) } := by
        unfold OpenTransaction.effects
        rw [hending]
        simp only []
        rw [if_pos htracking]
        rfl
      rw [heq]
      refine (h.reset htracking hending hrun).see ?_
      -- setting access times back leaves the links of the fork as they are
      show linksOf (walkedBy (tx.readByGit touched) failure) ⊆
        linksOf (walk ((tx.readByGit touched).map (resetIn (tx.readByGit touched) failure)))
      rw [linksOf_walk_map (onlyTimes_resetIn (tx.readByGit touched) failure)]
      exact linksOf_walkedBy_subset (tx.readByGit touched) failure
    · have heq : (tx.effects run).1 =
          { tx.recordedBy run with fork := tx.readByGit touched } := by
        unfold OpenTransaction.effects
        rw [hending]
        simp only []
        rw [if_neg htracking]
        rfl
      rw [heq]
      exact htouched touched

/-! ## What is returned -/

theorem returned_is_said {e : ReadEffects} (h : (tx.effects run).2 = some e) :
    e = tx.said run := by
  unfold OpenTransaction.effects at h
  cases hending : run.ending with
  | unrecorded | interrupted =>
    rw [hending] at h
    cases h
  | finished =>
    rw [hending] at h
    simp only [] at h
    split at h
    · split at h
      · exact (Option.some.inj h).symm
      · cases h
    · exact (Option.some.inj h).symm

/-- The links a call has seen were seen before it, or are in the fork. -/
theorem seenLinks_effects (tx : OpenTransaction) (run : EffectsRun) {l : String}
    (h : l ∈ (tx.effects run).1.seenLinks) : l ∈ tx.seenLinks ∨ l ∈ linksOf (walk tx.fork) := by
  have hvisited := linksOf_visited_subset tx.fork run.scanThrowsAfter
  unfold OpenTransaction.effects at h
  cases hending : run.ending with
  | unrecorded | interrupted =>
    rw [hending] at h
    exact (List.mem_append.1 h).imp_right (@hvisited l)
  | finished touched failure =>
    rw [hending] at h
    simp only [] at h
    split at h
    · rcases List.mem_append.1 h with hscan | hreset
      · exact (List.mem_append.1 hscan).imp_right (@hvisited l)
      · have hwalk := linksOf_walkedBy_subset (tx.fork.map (touch touched)) failure hreset
        rw [linksOf_walk_map (onlyTimes_touch touched)] at hwalk
        exact .inr hwalk
    · exact (List.mem_append.1 h).imp_right (@hvisited l)

/-- Evidence that is somewhere is in what a call returns. -/
theorem Evident.said (h : tx.Evident) {e : ReadEffects}
    (hreturned : (tx.effects run).2 = some e) :
    (∀ reads, e.readSet = some reads → ∀ k ∈ tx.observed, k ∈ reads) ∧
    (∀ links, e.pathDependencies = some links → ∀ l ∈ (tx.effects run).1.seenLinks, l ∈ links) := by
  have hsaid : e = tx.said run := returned_is_said hreturned
  subst hsaid
  constructor
  · intro reads hreads k hk
    obtain ⟨htracking, hall⟩ := said_readSet tx run hreads
    exact hall k (h.reads htracking k hk)
  · intro links hlinks l hl
    apply said_pathDependencies tx run hlinks l
    rcases seenLinks_effects tx run hl with hbefore | hfork
    · exact h.links l hbefore
    · exact .inr (.inr hfork)

end Evident

/-! ## Runs -/

variable {tx : OpenTransaction}

/-- What a read moves is recorded in an access time. -/
theorem Evident.read (h : tx.Evident) {rel : String} {now : Int}
    (hwalked : tx.readTracking = .atime → ∀ e ∈ tx.fork, e.rel = rel → e.skipped = false) :
    Evident { tx with
      fork := readFork rel now tx.fork
      observed := ((readFork rel now tx.fork).filter fun e =>
        readsEntry rel e && e.wasAccessed).map ForkEntry.key ++ tx.observed } := by
  have htimes : OnlyTimes fun e => if readsEntry rel e then e.readAt now else e :=
    onlyTimes_readsEntry rel now
  have hfork : Evident { tx with fork := readFork rel now tx.fork } := by
    refine h.times htimes fun _ e _ haccessed _ => .inl ?_
    show (if readsEntry rel e then e.readAt now else e).wasAccessed = true
    split
    · exact wasAccessed_readAt haccessed
    · exact haccessed
  refine ⟨?_, hfork.links⟩
  intro htracking k hk
  rcases List.mem_append.1 hk with hnow | hbefore
  · refine .inr ?_
    obtain ⟨e, he, rfl⟩ := List.mem_map.1 hnow
    obtain ⟨hmem, hread⟩ := List.mem_filter.1 he
    rw [Bool.and_eq_true] at hread
    have hentry : e.rel = rel ∧ e.kind ≠ .symlink := by
      have hboth := hread.1
      unfold readsEntry at hboth
      rw [Bool.and_eq_true, decide_eq_true_eq, decide_eq_true_eq] at hboth
      exact hboth
    -- the entry was in the fork before the read, under the same path
    obtain ⟨e₀, he₀, hfrom⟩ := List.mem_map.1 hmem
    have hmoved : (if readsEntry rel e₀ then e₀.readAt now else e₀).rel = e₀.rel := (htimes e₀).1
    have hrel : e₀.rel = rel := by
      rw [← hmoved, hfrom]
      exact hentry.1
    have hskipped : e.skipped = false := by
      rw [← hwalked htracking e₀ he₀ hrel, ← hfrom]
      exact htimes.skipped e₀
    exact mem_readsOf.2 ⟨e, mem_walk.2 ⟨hmem, hskipped⟩, hentry.2, hread.2, rfl⟩
  · exact hfork.reads htracking k hbefore

/-- The agent's own changes take no evidence away where the condition says so. -/
theorem Evident.edit (h : tx.Evident) {fork : Fork} (hkeeps : tx.Keeps (.edit fork)) :
    Evident { tx with fork } where
  reads := by
    intro htracking k hk
    rcases h.reads htracking k hk with hjournal | hfork
    · exact .inl hjournal
    · exact hkeeps.1 htracking k hfork
  links := by
    intro l hl
    rcases h.links l hl with hbegin | hjournal | hfork
    · exact .inl hbegin
    · exact .inr (.inl hjournal)
    · exact hkeeps.2 l hl hfork

/-- A step that destroys no evidence keeps the invariant. -/
theorem Evident.after (h : tx.Evident) {step : Step} (hkeeps : tx.Keeps step) :
    (after step tx).Evident := by
  unfold OpenTransaction.after
  split
  · exact h
  · cases step with
    | read => exact h.read hkeeps
    | edit => exact h.edit hkeeps
    | inspect => exact h.effects hkeeps
    | commit run =>
      have heffects : (tx.effects run).1.Evident := h.effects hkeeps
      exact ⟨heffects.reads, heffects.links⟩

/-- Where the evidence is somewhere, a call returns all of it. -/
theorem Evident.keepsEvidence (h : tx.Evident) (step : Step) : tx.KeepsEvidence step := by
  intro e hreturned
  by_cases hclosed : tx.closed = true
  · unfold returns at hreturned
    rw [if_pos hclosed] at hreturned
    cases hreturned
  · unfold returns at hreturned
    rw [if_neg hclosed] at hreturned
    unfold OpenTransaction.after
    rw [if_neg hclosed]
    cases step with
    | read | edit => cases hreturned
    | inspect | commit => exact h.said hreturned

/-- In a run whose steps destroy no evidence, every read set that is returned is unknown or has
    every entry whose access was recorded, and every set of links is unknown or has every link
    that was seen. -/
theorem evidence_is_kept (readTracking : ReadTracking) (fork : Fork) (steps : List Step)
    (h : Along after Keeps (start readTracking fork) steps) :
    Along after KeepsEvidence (start readTracking fork) steps := by
  refine Along.imp (I := Evident) ?_ (evident_start readTracking fork) h
  intro tx step hevident hkeeps
  exact ⟨hevident.keepsEvidence step, hevident.after hkeeps⟩

/-! ## A scan that throws -/

/-- A fork with one file. -/
def oneFile : Fork := [⟨"", .dir, 5, 10⟩, ⟨"a", .file, 5, 10⟩]

/-- The same fork with a link before the file. -/
def withLink : Fork := [⟨"", .dir, 5, 10⟩, ⟨"ZZ", .symlink, 5, 10⟩, ⟨"a", .file, 5, 10⟩]

def scanned : EffectsRun := ⟨none, .finished [] none⟩

/-- The scan throws after two entries, and the call goes on. -/
def thrown : EffectsRun := ⟨some 2, .finished [] none⟩

/-- The scan throws, and the process ends before TX_READS. -/
def crashed : EffectsRun := ⟨some 0, .unrecorded⟩

/-- A read, a crash and a second read are all in what the commit returns. -/
theorem crash_keeps_evidence :
    Along after KeepsEvidence (start .atime oneFile)
      [.read "a" 20, .inspect crashed, .inspect scanned, .read "a" 40, .commit scanned true] := by
  apply evidence_is_kept
  refine ⟨?_, ?_, ?_, ?_, ?_, trivial⟩
  · show ReadTracking.atime = .atime → ∀ e ∈ (start .atime oneFile).fork, e.rel = "a" →
      e.skipped = false
    decide
  · intro n touched failure _ hending
    cases hending
  · intro n touched failure hscan
    cases hscan
  · intro _
    decide
  · intro n touched failure hscan
    cases hscan

/-- A scan that throws leaves an unknown read set in the journal, and access times are set back all
    the same: the next call returns an empty read set.  A link that only that scan came to is
    lost in the same way when it is removed. -/
theorem thrown_scan_loses_evidence :
    ¬ Along after KeepsEvidence (start .atime oneFile)
      [.read "a" 20, .inspect thrown, .inspect scanned] ∧
    ¬ Along after KeepsEvidence (start .atime oneFile)
      [.edit withLink, .inspect thrown, .edit oneFile, .inspect scanned] := by
  constructor
  · rintro ⟨_, _, hlast, _⟩
    have hreturned := hlast ⟨some [], some []⟩ (by decide)
    have hread : "a" ∈ ([] : List String) := hreturned.1 [] rfl "a" (by decide)
    cases hread
  · rintro ⟨_, _, _, hlast, _⟩
    have hreturned := hlast ⟨some [], some []⟩ (by decide)
    have hlink : "ZZ" ∈ ([] : List String) := hreturned.2 [] rfl "ZZ" (by decide)
    cases hlink

end OpenTransaction
end Evidence
end XioFlow
