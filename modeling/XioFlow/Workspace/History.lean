/-
  XioFlow.Workspace.History

  Histories of workspace transactions on one root: what they read and change
  in their forks, their commits, and whatever else is written to the root.

  A commit is two steps, one up to its TX_COMMITTING and one from there, since
  the root may be written between validation and application.  A crash in the
  second is a write to the root with the same step to follow; the lease on the
  root is kept or rebuilt.  What was read is known from the times of the
  fork's entries alone, and whatever changes the fork moves these.
-/

import XioFlow.Workspace.Validation
import XioFlow.Lib.Transition

namespace XioFlow

open Lib

/-! ## Evidence -/

/-- The names at the top of a tree that the walks over it skip. -/
def defaultSkip : List String := [".git", ".xioflow-kernel", ".xioflow"]

/-- A walk comes to this entry. -/
def Entry.visited : Entry → Bool
  | .file (name :: _) | .dir (name :: _) => !(defaultSkip.contains name)
  | .file [] | .dir [] => true

/-- What a TX_READS event says. -/
structure ReadsEvent where
  readSet : Option (List Entry)
  pathDependencies : Option (List Path)

/-- An entry of a fork as the walks see it. -/
structure Stamped where
  entry : Entry
  atimeNs : Int
  mtimeNs : Int
  deriving DecidableEq

namespace Stamped

def wasAccessed (s : Stamped) : Bool := s.mtimeNs ≤ s.atimeNs

/-- The access time is set before the modification time. -/
def resetAccessTime (s : Stamped) : Stamped := { s with atimeNs := s.mtimeNs - 2000000000 }

/-- The entry is read; access times do not go back. -/
def readAt (now : Int) (s : Stamped) : Stamped := { s with atimeNs := max s.atimeNs now }

end Stamped

/-- What collecting the effects of a transaction met. -/
structure Collection where
  /-- The links that the walk found; none when a directory could not be read. -/
  links : Option (List Path)
  /-- Everything after TX_READS went well, the new start of the access times included. -/
  completed : Bool
  /-- What git has read, and when. -/
  touched : List Entry := []
  now : Int := 0
  /-- What a start that threw has set back before. -/
  reset : List Entry := []

/-- The access time of the entry is set back. -/
def Collection.setsBack (c : Collection) (e : Entry) : Bool :=
  if c.completed then e.visited else decide (e ∈ c.reset)

/-! ## Transactions -/

/-- A commit that passed its validation. -/
structure CheckedPlan where
  effects : Effects
  validation : CommitValidation

inductive TransactionStatus where
  | opened
  | committing (plan : CheckedPlan)
  | committed
  | conflicted
  | aborted

structure Transaction where
  base : FileTree Blob
  /-- The files of the fork, and all entries of it with their times. -/
  fork : FileTree Blob
  entries : List Stamped
  /-- How many commits to the root were recorded before TX_BEGUN. -/
  beginSeq : Nat
  readTracking : ReadTracking
  pathDependencies : Option (List Path)
  status : TransactionStatus := .opened
  /-- The TX_READS events so far. -/
  earlier : List ReadsEvent := []
  /-- Everything the transaction has read or listed in its fork. -/
  observed : List Entry := []

namespace Transaction

/-- The entries whose access time is not before their modification time. -/
def accessed (tx : Transaction) : List Entry :=
  (tx.entries.filter Stamped.wasAccessed).map Stamped.entry

/-- The reads that the journal holds. -/
def recordedReads (tx : Transaction) : List Entry :=
  tx.earlier.flatMap fun e => e.readSet.getD []

def effects (tx : Transaction) (links : Option (List Path)) : Effects where
  readSet :=
    if tx.readTracking = .atime ∧ links.isSome then
      some (tx.recordedReads ++ tx.accessed.filter Entry.visited)
    else none
  pathDependencies :=
    match links, tx.pathDependencies with
    | some found, some atBegin =>
      some (atBegin ++ tx.earlier.flatMap (fun e => e.pathDependencies.getD []) ++ found)
    | _, _ => none
  writeSet := diffTrees tx.base tx.fork

/-- What git's reading and the new start of the access times leave of an entry's times. -/
def restamp (tx : Transaction) (c : Collection) (s : Stamped) : Stamped :=
  let read := if s.entry ∈ c.touched then s.readAt c.now else s
  if tx.readTracking = .atime ∧ c.setsBack s.entry then read.resetAccessTime else read

/-- Collecting the effects: TX_READS, then the write set, then access times start anew. -/
def collect (tx : Transaction) (c : Collection) : Transaction :=
  { tx with
    earlier := tx.earlier ++ [⟨(tx.effects c.links).readSet, (tx.effects c.links).pathDependencies⟩]
    entries := tx.entries.map (tx.restamp c) }

/-- The agent reads a file or lists a directory; only an access that is recorded counts. -/
def observe (tx : Transaction) (entry : Entry) (now : Int) : Transaction :=
  let read := { tx with entries := tx.entries.map fun s =>
    if s.entry = entry then s.readAt now else s }
  if entry ∈ read.accessed then { read with observed := entry :: tx.observed } else read

/-- A commit up to its TX_COMMITTING or TX_CONFLICTED. -/
def check (tx : Transaction) (c : Collection) (committedAfter : List Committed)
    (main : FileTree Blob) : Transaction :=
  if c.completed then
    { tx.collect c with
      status :=
        if validate committedAfter (tx.effects c.links) tx.base main = [] then
          .committing
            { effects := tx.effects c.links
              validation := if (tx.effects c.links).readSet = none then .writeOnly else .files }
        else .conflicted }
  else tx.collect c

/-- How a commit between its two steps was validated. -/
def committing? (tx : Transaction) : Option CommitValidation :=
  match tx.status with
  | .committing plan => some plan.validation
  | _ => none

/-- The file is one that the fork has changed. -/
def Overwrites (tx : Transaction) (e : Entry) : Prop :=
  ∃ p, e = .file p ∧ tx.base.file? p ≠ tx.fork.file? p

/-- An observation has left a trace: in the journal, in the times where the walks come by, or as
    a file that is overwritten. -/
def Evident (tx : Transaction) (e : Entry) : Prop :=
  e ∈ tx.recordedReads ∨ (e ∈ tx.accessed ∧ e.visited = true) ∨ tx.Overwrites e

end Transaction

/-- The write set as it is applied to the root. -/
def applyWrites (fork : FileTree Blob) (writeSet : List FileChange) (main : FileTree Blob) :
    FileTree Blob :=
  writeSet.foldl (fun tree w =>
    match fork.file? w.path with
    | none => tree.remove w.path
    | some blob => tree.put w.path blob) main

/-! ## Histories -/

/-- The root, the commits to it in the order of the journal, the commit that has the lease on the
    root, and the transactions. -/
structure History where
  main : FileTree Blob
  commits : List Committed
  lease : Option String
  transactions : String → Option Transaction

namespace History

inductive Step where
  /-- Anything may be written to the root outside the transactions. -/
  | write (main : FileTree Blob)
  /-- The base is the root as it is now, as it was when captured, or an older snapshot. -/
  | start (txId : String) (base : FileTree Blob) (entries : List Stamped)
      (readTracking : ReadTracking) (pathDependencies : Option (List Path))
  | observe (txId : String) (entry : Entry) (now : Int)
  /-- The fork is changed, and with it the times of its entries. -/
  | edit (txId : String) (fork : FileTree Blob) (entries : List Stamped)
  | inspect (txId : String) (c : Collection)
  | check (txId : String) (c : Collection)
  | apply (txId : String)
  | abort (txId : String)

def committedAfter (h : History) (txId : String) (tx : Transaction) : List Committed :=
  (h.commits.drop tx.beginSeq).filter fun other => other.txId ≠ txId

def set (h : History) (txId : String) (tx : Transaction) : History :=
  { h with transactions := Function.update h.transactions txId (some tx) }

def opened? (h : History) (txId : String) : Option Transaction :=
  match h.transactions txId with
  | some tx =>
    match tx.status with
    | .opened => some tx
    | _ => none
  | none => none

/-- A step on an open transaction; nothing happens on another. -/
def onOpen (h : History) (txId : String) (f : Transaction → Transaction) : History :=
  match h.opened? txId with
  | some tx => h.set txId (f tx)
  | none => h

def after (step : Step) (h : History) : History :=
  match step with
  | .write main => { h with main }
  | .start txId base entries readTracking pathDependencies =>
    match h.transactions txId with
    | none =>
      h.set txId
        { base, fork := base, readTracking, pathDependencies
          entries := if readTracking = .atime then entries.map Stamped.resetAccessTime else entries
          beginSeq := h.commits.length }
    | some _ => h
  | .observe txId entry now => h.onOpen txId fun tx => tx.observe entry now
  | .edit txId fork entries => h.onOpen txId fun tx => { tx with fork, entries }
  | .inspect txId c => h.onOpen txId fun tx => tx.collect c
  | .check txId c =>
    match h.lease, h.opened? txId with
    | none, some tx =>
      let checked := tx.check c (h.committedAfter txId tx) h.main
      { h.set txId checked with lease := checked.committing?.map fun _ => txId }
    | _, _ => h
  | .apply txId =>
    match h.transactions txId with
    | some tx =>
      match tx.status with
      | .committing plan =>
        { main := applyWrites tx.fork plan.effects.writeSet h.main
          commits := h.commits ++ [⟨txId, plan.effects.writeSet⟩]
          lease := none
          transactions :=
            Function.update h.transactions txId (some { tx with status := .committed }) }
      | _ => h
    | none => h
  | .abort txId =>
    match h.transactions txId with
    | some tx =>
      match tx.status with
      | .opened | .conflicted => h.set txId { tx with status := .aborted }
      | _ => h
    | none => h

/-! ## What is said about a history -/

/-- Immediately before a commit validated by its files is applied, the root shows what the
    transaction observed and holds what it overwrites as its base does. -/
def AppliesSerially (h : History) : Step → Prop
  | .apply txId =>
    ∀ tx plan, h.transactions txId = some tx → tx.status = .committing plan →
      plan.validation = .files →
      Serializable tx.observed plan.effects.writeSet tx.base h.main
  | _ => True

/-- Nothing that the transaction has read or changed as a file is another in the root. -/
def FilesAsInBase (h : History) (tx : Transaction) : Prop :=
  ∀ p, .file p ∈ tx.observed ∨ tx.base.file? p ≠ tx.fork.file? p →
    h.main.file? p = tx.base.file? p

/-- Collecting does not set back the access time that alone tells of an observation, after a walk
    that has failed. -/
def KeepsEvidence (tx : Transaction) (c : Collection) : Prop :=
  tx.readTracking = .atime → c.links = none →
    ∀ e ∈ tx.observed, e ∈ tx.recordedReads ∨ tx.Overwrites e ∨ c.setsBack e = false

/-- What the evidence and the comparison of paths miss does not happen in this step.  Nothing is
    read where the walks do not go.  A change of the fork leaves the times of what was observed
    since the last TX_READS, files that it overwrites aside.  A failed walk is not followed by new
    access times.  When a commit is validated, the directories listed have gained and lost files
    directly in them only; and from there on nothing that it observed or overwrites is written. -/
def Undisturbed (h : History) : Step → Prop
  | .write main =>
    ∀ txId tx, h.lease = some txId → h.transactions txId = some tx →
      tx.committing? = some .files →
        Serializable tx.observed (diffTrees tx.base tx.fork) h.main main
  | .observe txId entry _ =>
    ∀ tx ∈ h.opened? txId, tx.readTracking = .atime → entry.visited = true
  | .edit txId fork entries =>
    ∀ tx ∈ h.opened? txId, tx.readTracking = .atime →
      ∀ e ∈ tx.observed, Transaction.Evident { tx with fork, entries } e
  | .inspect txId c => ∀ tx ∈ h.opened? txId, KeepsEvidence tx c
  | .check txId c =>
    h.lease = none → ∀ tx ∈ h.opened? txId,
      (c.completed = false → KeepsEvidence tx c) ∧
      (c.links.isSome → tx.readTracking = .atime → h.FilesAsInBase tx →
        FlatListings tx.observed (h.committedAfter txId tx) tx.base h.main)
  | _ => True

/-! ## The evidence is complete -/

/-- Where access times tell of reads, every observation has left a trace. -/
def Covered (tx : Transaction) : Prop :=
  tx.readTracking = .atime → ∀ e ∈ tx.observed, tx.Evident e

/-- While a transaction is open its evidence is complete; while it commits it has the lease, and
    the root is as validated. -/
structure Sound (h : History) (txId : String) (tx : Transaction) : Prop where
  covered : tx.status = .opened → Covered tx
  leased : ∀ plan, tx.status = .committing plan →
    h.lease = some txId ∧ plan.effects.writeSet = diffTrees tx.base tx.fork
  serial : ∀ plan, tx.status = .committing plan → plan.validation = .files →
    Serializable tx.observed (diffTrees tx.base tx.fork) tx.base h.main

def AllSound (h : History) : Prop := ∀ txId tx, h.transactions txId = some tx → Sound h txId tx

variable {tx : Transaction} {main : FileTree Blob} {h : History} {txId : String} {c : Collection}

theorem opened?_eq_some :
    h.opened? txId = some tx ↔ h.transactions txId = some tx ∧ tx.status = .opened := by
  unfold opened?
  cases htx : h.transactions txId with
  | none => simp
  | some tx' =>
    cases hstatus : tx'.status <;> simp only [hstatus, Option.some.injEq, reduceCtorEq, false_iff]
    · exact ⟨fun heq => heq ▸ ⟨rfl, hstatus⟩, fun h => h.1⟩
    all_goals
      rintro ⟨rfl, hopen⟩
      rw [hstatus] at hopen
      cases hopen

theorem mem_accessed {e : Entry} :
    e ∈ tx.accessed ↔ ∃ s ∈ tx.entries, s.wasAccessed = true ∧ s.entry = e := by
  unfold Transaction.accessed
  simp only [List.mem_map, List.mem_filter, and_assoc]

theorem wasAccessed_readAt {s : Stamped} (now : Int) (h : s.wasAccessed = true) :
    (s.readAt now).wasAccessed = true := by
  have hbefore : s.mtimeNs ≤ s.atimeNs := of_decide_eq_true h
  have hafter : s.mtimeNs ≤ max s.atimeNs now := by omega
  exact decide_eq_true hafter

/-- What was observed is in the effects of a walk that went well. -/
theorem shows_of_covered (hcovered : Covered tx) {links : Option (List Path)}
    (hread : (tx.effects links).readSet ≠ none) :
    ∀ e ∈ tx.observed, (tx.effects links).Shows e := by
  intro e he
  unfold Effects.Shows Transaction.effects at *
  dsimp only at hread ⊢
  split at hread
  · rename_i hcan
    rw [if_pos hcan]
    rcases hcovered hcan.1 e he with hrecorded | hnow | ⟨p, heq, hchanged⟩
    · exact .inl (List.mem_append_left _ hrecorded)
    · exact .inl (List.mem_append_right _ (List.mem_filter.2 hnow))
    · exact .inr ⟨p, List.mem_map_of_mem (mem_diffTrees hchanged.symm), heq⟩
  · exact absurd rfl hread

theorem recordedReads_collect (tx : Transaction) (c : Collection) :
    (tx.collect c).recordedReads =
      tx.recordedReads ++ (tx.effects c.links).readSet.getD [] := by
  unfold Transaction.collect Transaction.recordedReads
  simp

theorem restamp_of_kept {s : Stamped} (hkept : c.setsBack s.entry = false) :
    tx.restamp c s = if s.entry ∈ c.touched then s.readAt c.now else s := by
  unfold Transaction.restamp
  refine if_neg ?_
  rintro ⟨-, hback⟩
  rw [hkept] at hback
  cases hback

/-- Git's reading leaves an access that is not set back. -/
theorem accessed_collect {e : Entry} (haccessed : e ∈ tx.accessed) (hkept : c.setsBack e = false) :
    e ∈ (tx.collect c).accessed := by
  obtain ⟨s, hs, hwas, rfl⟩ := mem_accessed.1 haccessed
  refine mem_accessed.2 ⟨tx.restamp c s, List.mem_map_of_mem hs, ?_, ?_⟩
  · rw [restamp_of_kept hkept]
    split
    · exact wasAccessed_readAt c.now hwas
    · exact hwas
  · rw [restamp_of_kept hkept]
    split <;> rfl

/-- Collecting keeps the evidence, unless a failed walk is followed by new access times. -/
theorem covered_collect (hcovered : Covered tx) (hkeeps : KeepsEvidence tx c) :
    Covered (tx.collect c) := by
  intro htracking e he
  have htrack : tx.readTracking = .atime := htracking
  have hobserved : e ∈ tx.observed := he
  unfold Transaction.Evident
  rw [recordedReads_collect]
  have hoverwrites : tx.Overwrites e → (tx.collect c).Overwrites e := id
  rcases hcovered htrack e hobserved with hrecorded | ⟨haccessed, hvisited⟩ | hchanged
  · exact .inl (List.mem_append_left _ hrecorded)
  · cases hlinks : c.links with
    | some found =>
      refine .inl (List.mem_append_right _ ?_)
      unfold Transaction.effects
      dsimp only
      rw [if_pos ⟨htrack, rfl⟩]
      exact List.mem_append_right _ (List.mem_filter.2 ⟨haccessed, hvisited⟩)
    | none =>
      rcases hkeeps htrack hlinks e hobserved with hrecorded | hchanged | hback
      · exact .inl (List.mem_append_left _ hrecorded)
      · exact .inr (.inr (hoverwrites hchanged))
      · exact .inr (.inl ⟨accessed_collect haccessed hback, hvisited⟩)
  · exact .inr (.inr (hoverwrites hchanged))

/-- An observation that is recorded has left a trace where the walks go; earlier traces stay. -/
theorem covered_observe (hcovered : Covered tx) {entry : Entry} {now : Int}
    (hvisited : tx.readTracking = .atime → entry.visited = true) :
    Covered (tx.observe entry now) := by
  have hstays : ∀ e ∈ tx.accessed, e ∈ Transaction.accessed { tx with
      entries := tx.entries.map fun s => if s.entry = entry then s.readAt now else s } := by
    intro e he
    obtain ⟨s, hs, hwas, rfl⟩ := mem_accessed.1 he
    refine mem_accessed.2 ⟨_, List.mem_map_of_mem hs, ?_, ?_⟩
    · split
      · exact wasAccessed_readAt now hwas
      · exact hwas
    · split <;> rfl
  have hearlier : tx.readTracking = .atime → ∀ e ∈ tx.observed, Transaction.Evident { tx with
      entries := tx.entries.map fun s => if s.entry = entry then s.readAt now else s } e := by
    intro htracking e he
    rcases hcovered htracking e he with hrecorded | ⟨haccessed, hv⟩ | hchanged
    · exact .inl hrecorded
    · exact .inr (.inl ⟨hstays e haccessed, hv⟩)
    · exact .inr (.inr hchanged)
  unfold Transaction.observe
  dsimp only
  split
  · rename_i hrecorded
    intro htracking e he
    rcases List.mem_cons.1 he with rfl | he
    · exact .inr (.inl ⟨hrecorded, hvisited htracking⟩)
    · exact hearlier htracking e he
  · exact hearlier

/-! ## Steps keep it -/

/-- What is sound stays so while the root and its lease are left alone. -/
theorem Sound.frame {h' : History} (hs : Sound h txId tx) (hmain : h'.main = h.main)
    (hlease : h'.lease = h.lease) : Sound h' txId tx :=
  ⟨hs.covered, fun plan hplan => hlease ▸ hs.leased plan hplan,
    fun plan hplan hfiles => hmain ▸ hs.serial plan hplan hfiles⟩

/-- What is not between the two steps of a commit does not depend on the root. -/
theorem Sound.idle {h' : History} (hcovered : tx.status = .opened → Covered tx)
    (hidle : ∀ plan, tx.status ≠ .committing plan) : Sound h' txId tx :=
  ⟨hcovered, fun plan hplan => absurd hplan (hidle plan),
    fun plan hplan => absurd hplan (hidle plan)⟩

theorem not_committing_of_opened (hopen : tx.status = .opened) (plan : CheckedPlan) :
    tx.status ≠ .committing plan := by
  rw [hopen]
  intro hcontra
  cases hcontra

/-- Only the commit with the lease is between its two steps. -/
theorem Sound.idle_of_lease (hs : Sound h txId tx) (hlease : h.lease ≠ some txId)
    (plan : CheckedPlan) : tx.status ≠ .committing plan :=
  fun hplan => hlease (hs.leased plan hplan).1

/-- One transaction is changed, and the others are sound afterwards. -/
theorem allSound_update {h' : History}
    (htransactions : h'.transactions = Function.update h.transactions txId (some tx))
    (hothers : ∀ other tx', other ≠ txId → h.transactions other = some tx' → Sound h' other tx')
    (hown : Sound h' txId tx) : AllSound h' := by
  intro other tx' htx'
  rw [htransactions] at htx'
  by_cases heq : other = txId
  · subst heq
    rw [Function.update_self] at htx'
    cases htx'
    exact hown
  · rw [Function.update_of_ne heq] at htx'
    exact hothers other tx' heq htx'

theorem allSound_set (hall : AllSound h) (hcovered : tx.status = .opened → Covered tx)
    (hidle : ∀ plan, tx.status ≠ .committing plan) : AllSound (h.set txId tx) :=
  allSound_update rfl (fun other tx' _ htx' => (hall other tx' htx').frame rfl rfl)
    (.idle hcovered hidle)

theorem allSound_onOpen (hall : AllSound h) {f : Transaction → Transaction}
    (hf : ∀ tx ∈ h.opened? txId, Covered tx → (f tx).status = tx.status ∧ Covered (f tx)) :
    AllSound (h.onOpen txId f) := by
  unfold onOpen
  cases hopened : h.opened? txId with
  | none => exact hall
  | some tx =>
    obtain ⟨htx, hopen⟩ := opened?_eq_some.1 hopened
    obtain ⟨hstatus, hcovered⟩ := hf tx hopened ((hall txId tx htx).covered hopen)
    exact allSound_set hall (fun _ => hcovered)
      (not_committing_of_opened (hstatus.trans hopen))

/-- What holds from one root to a second and from there to a third holds from the first. -/
theorem serializable_trans {observed : List Entry} {writes : List FileChange}
    {base main' : FileTree Blob} (h : Serializable observed writes base main)
    (h' : Serializable observed writes main main') : Serializable observed writes base main' := by
  refine ⟨fun e he => ?_, fun w hw => (h'.2 w hw).trans (h.2 w hw)⟩
  have hfirst := h.1 e he
  have hsecond := h'.1 e he
  cases e with
  | file => exact hsecond.trans hfirst
  | dir d => exact fun name => (hsecond name).trans (hfirst name)

theorem allSound_write (hall : AllSound h) (hstep : Undisturbed h (.write main)) :
    AllSound { h with main } := by
  intro txId tx htx
  have hs := hall txId tx htx
  refine ⟨hs.covered, hs.leased, fun plan hplan hfiles => ?_⟩
  have hcommitting : tx.committing? = some .files := by
    unfold Transaction.committing?
    rw [hplan]
    exact congrArg some hfiles
  have hlease := (hs.leased plan hplan).1
  exact serializable_trans (hs.serial plan hplan hfiles) (hstep txId tx hlease htx hcommitting)

/-- A passed validation says that files are as in the base, and the condition that listings are. -/
theorem serializable_of_validated {committedAfter : List Committed} (hcovered : Covered tx)
    (hnone : validate committedAfter (tx.effects c.links) tx.base main = [])
    (hread : (tx.effects c.links).readSet ≠ none)
    (hflat : c.links.isSome → tx.readTracking = .atime →
      (∀ p, .file p ∈ tx.observed ∨ tx.base.file? p ≠ tx.fork.file? p →
        main.file? p = tx.base.file? p) →
      FlatListings tx.observed committedAfter tx.base main) :
    Serializable tx.observed (diffTrees tx.base tx.fork) tx.base main := by
  have hshown := shows_of_covered hcovered hread
  refine (serializable_iff_flat hnone hshown).2 ?_
  have hcan : tx.readTracking = .atime ∧ c.links.isSome := by
    by_contra hcannot
    exact hread (if_neg hcannot)
  refine hflat hcan.2 hcan.1 fun p hp => ?_
  rcases hp with hobserved | hchanged
  · exact (hshown _ hobserved).same_file hnone
  · exact same_file hnone (.inr (List.mem_map_of_mem (mem_diffTrees hchanged.symm)))

theorem allSound_check (hall : AllSound h) (hstep : Undisturbed h (.check txId c)) :
    AllSound (after (.check txId c) h) := by
  cases hlease : h.lease with
  | some owner => simpa only [after, hlease] using hall
  | none =>
    cases hopened : h.opened? txId with
    | none => simpa only [after, hlease, hopened] using hall
    | some tx =>
      obtain ⟨htx, hopen⟩ := opened?_eq_some.1 hopened
      have hcovered := (hall txId tx htx).covered hopen
      obtain ⟨hkeeps, hflat⟩ := hstep hlease tx hopened
      simp only [after, hlease, hopened]
      refine allSound_update (h := h) rfl (fun other tx' _ htx' => ?_) ?_
      · -- nobody else commits, since nobody had the lease
        have hs := hall other tx' htx'
        exact .idle hs.covered (hs.idle_of_lease (by rw [hlease]; exact fun h => by cases h))
      unfold Transaction.check
      by_cases hcompleted : c.completed = true
      · rw [if_pos hcompleted]
        by_cases hnone :
            validate (h.committedAfter txId tx) (tx.effects c.links) tx.base h.main = []
        · rw [if_pos hnone]
          refine ⟨fun hstill => (by cases hstill), fun plan hplan => ?_,
            fun plan hplan hfiles => ?_⟩
          · cases hplan
            exact ⟨rfl, rfl⟩
          · cases hplan
            show Serializable tx.observed (diffTrees tx.base tx.fork) tx.base h.main
            refine serializable_of_validated hcovered hnone (fun hread => ?_) hflat
            dsimp only at hfiles
            rw [if_pos hread] at hfiles
            cases hfiles
        · rw [if_neg hnone]
          exact .idle (fun hstill => by cases hstill) fun plan hplan => by cases hplan
      · rw [if_neg hcompleted]
        have hincomplete : c.completed = false := by simpa using hcompleted
        exact .idle (fun _ => covered_collect hcovered (hkeeps hincomplete))
          (@not_committing_of_opened (tx.collect c) hopen)

theorem allSound_apply (hall : AllSound h) : AllSound (after (.apply txId) h) := by
  unfold after
  dsimp only
  split
  · rename_i tx htx
    split
    · rename_i plan hplan
      have hlease := ((hall txId tx htx).leased plan hplan).1
      refine allSound_update (h := h) rfl (fun other tx' hne htx' => ?_) ?_
      · have hs := hall other tx' htx'
        refine .idle hs.covered (hs.idle_of_lease ?_)
        rw [hlease, ne_eq, Option.some.injEq]
        exact fun heq => hne heq.symm
      · exact .idle (fun hstill => by cases hstill) fun plan hplan => by cases hplan
    · exact hall
  · exact hall

theorem allSound_after {step : Step} (hall : AllSound h) (hstep : Undisturbed h step) :
    AllSound (after step h) := by
  cases step with
  | write main => exact allSound_write hall hstep
  | start txId base entries readTracking pathDependencies =>
    unfold after
    dsimp only
    split
    · refine allSound_set hall (fun _ _ e he => ?_) (not_committing_of_opened rfl)
      cases he
    · exact hall
  | observe txId entry now =>
    refine allSound_onOpen hall fun tx htx hcovered => ⟨?_, ?_⟩
    · unfold Transaction.observe
      dsimp only
      split <;> rfl
    · exact covered_observe hcovered (hstep tx htx)
  | edit => exact allSound_onOpen hall fun tx htx _ => ⟨rfl, hstep tx htx⟩
  | inspect =>
    exact allSound_onOpen hall fun tx htx hcovered => ⟨rfl, covered_collect hcovered (hstep tx htx)⟩
  | check => exact allSound_check hall hstep
  | apply => exact allSound_apply hall
  | abort txId =>
    unfold after
    dsimp only
    split
    · split
      · exact allSound_set hall (fun hstill => by cases hstill) fun plan hplan => by cases hplan
      · exact allSound_set hall (fun hstill => by cases hstill) fun plan hplan => by cases hplan
      · exact hall
    · exact hall

/-! ## Serializability -/

theorem appliesSerially_of_sound {step : Step} (hall : AllSound h) : AppliesSerially h step := by
  cases step with
  | apply txId =>
    intro tx plan htx hplan hfiles
    have hs := hall txId tx htx
    rw [(hs.leased plan hplan).2]
    exact hs.serial plan hplan hfiles
  | _ => trivial

def text (content : String) : Blob := ⟨.regular, content⟩

/-- A root with one file, in a directory. -/
def sampleRoot : FileTree Blob := FileTree.put Table.empty ["a", "x"] (text "1")

def sampleHistory : History := ⟨sampleRoot, [], none, fun _ => none⟩

/-- The entries of a fork whose directory has these times. -/
def sampleEntries (atimeNs mtimeNs : Int) : List Stamped :=
  [⟨.dir [], -1, 0⟩, ⟨.dir ["a"], atimeNs, mtimeNs⟩, ⟨.file ["a", "x"], -1, 0⟩]

/-- A transaction lists a directory and writes a file, while others write this root. -/
def listAndCommit (written : Path) (mtimeNs : Int) (main : FileTree Blob) : List Step :=
  [.start "t" sampleRoot (sampleEntries 0 0) .atime (some []), .observe "t" (.dir ["a"]) 1,
    .edit "t" (sampleRoot.put written (text "2"))
      (⟨.file written, 2, 2⟩ :: sampleEntries 1 mtimeNs),
    .write main, .check "t" { links := some [], completed := true }, .apply "t"]

/-- The root with a file beside the directory, and with two. -/
def oneBeside : FileTree Blob := sampleRoot.put ["out"] (text "2")
def twoBeside : FileTree Blob := oneBeside.put ["c"] (text "3")

theorem holds_beside (name : String) :
    (sampleRoot.Holds ["a"] name ↔ name = "x") ∧ (oneBeside.Holds ["a"] name ↔ name = "x") ∧
      (twoBeside.Holds ["a"] name ↔ name = "x") := by
  have hsample : sampleRoot.paths = [["a", "x"]] := by decide
  have hone : oneBeside.paths = [["a", "x"], ["out"]] := by decide
  have htwo : twoBeside.paths = [["a", "x"], ["out"], ["c"]] := by decide
  unfold FileTree.Holds
  rw [hsample, hone, htwo]
  simp

/-- A transaction reads and lists, has this recorded, and creates a file in the directory listed.
    Another commits, and the root is written between the validation and the application. -/
def recordAndCommit : List Step :=
  [.start "t" sampleRoot (sampleEntries 0 0) .atime (some []), .observe "t" (.dir ["a"]) 1,
    .observe "t" (.file ["a", "x"]) 1, .inspect "t" { links := some [], completed := true },
    .edit "t" (sampleRoot.put ["a", "y"] (text "2"))
      (⟨.file ["a", "y"], 2, 2⟩ :: sampleEntries 1 2),
    .start "u" sampleRoot (sampleEntries 0 0) .atime (some []),
    .edit "u" oneBeside (⟨.file ["out"], 2, 2⟩ :: sampleEntries 0 0),
    .check "u" { links := some [], completed := true }, .apply "u",
    .check "t" { links := some [], completed := true }, .write twoBeside, .apply "t"]

end History
end XioFlow
