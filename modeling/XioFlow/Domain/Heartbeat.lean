/-
  XioFlow.Domain.Heartbeat

  The owners of one domain database: acquisition, heartbeats and renewals,
  release, close and fencing, in any order and with any clocks.

  An owner is one `ExecutionDomain` with its own store over the shared
  database.  Owners may run on different hosts, so every step brings the
  clock, the host name and the process table it happens to see.
-/

import XioFlow.Store.Effects
import XioFlow.Lib.Transition

namespace XioFlow

open Lib
open SqliteStore (KillOutcome acquireOwnerLease releaseOwnerLease nextOwner isOldProcessAlive
  epochFencing granted nextOwner_ok row_granted)

namespace Ownership

/-! ## The system -/

/-- What an `ExecutionDomain` keeps in memory about its ownership. -/
structure Owner where
  ownerRecord : OwnerRecord
  currentEpoch : Option Int
  isFenced : Bool := false
  heartbeatInterval : Bool := true
  closed : Bool := false

/-- The shared database and the owners that acquired it. -/
structure System (ι : Type) where
  db : Database
  owners : ι → Option Owner

/-- What a step sees: the host it runs on, its clock, its process table, and whether the database
    answers or the statement fails (a busy database, an input/output error). -/
structure Surroundings where
  hostname : String
  now : Timestamp
  kill : Nat → KillOutcome
  available : Bool := true

inductive Step (ι : Type) where
  /-- `new ExecutionDomain`; `rebuilt` tells whether the isolation could be rebuilt. -/
  | acquire (i : ι) (ownerId : String) (ttlMs : Nat) (force rebuilt : Bool) (env : Surroundings)
  | heartbeat (i : ι) (env : Surroundings)
  | renewHeartbeat (i : ι) (env : Surroundings)
  | fence (i : ι)
  | releaseOwnerLease (i : ι) (env : Surroundings)
  | close (i : ι) (env : Surroundings)

variable {ι : Type} [DecidableEq ι] (domainId : String)

/-- The store of an owner. -/
def Owner.store (owner : Owner) (db : Database) : SqliteStore := ⟨db, owner.currentEpoch⟩

/-- `acquireOwnerLease` in surroundings where the database may not answer. -/
def lease (ownerId : String) (ttlMs : Nat) (force : Bool) (env : Surroundings) :
    StoreM OwnerRecord :=
  if env.available then
    acquireOwnerLease domainId ownerId env.hostname ttlMs force env.now env.kill
  else MonadExcept.throw (.error "database is locked")

/-- The common body of the timer and of `renewHeartbeat`: renew, or fence for good. -/
def renewal (i : ι) (owner : Owner) (env : Surroundings) (s : System ι) : System ι :=
  match (lease domainId owner.ownerRecord.ownerId 60000 false env).run (owner.store s.db) with
  | (store, .ok ownerRecord) =>
    { db := store.db
      owners := Function.update s.owners i
        (some { owner with ownerRecord, currentEpoch := store.currentEpoch }) }
  | (store, .error _) =>
    { db := store.db
      owners := Function.update s.owners i
        (some { owner with
          isFenced := true
          heartbeatInterval := false
          currentEpoch := (SqliteStore.fence store).currentEpoch }) }

/-- The constructor. -/
def construct (i : ι) (ownerId : String) (ttlMs : Nat) (force rebuilt : Bool)
    (env : Surroundings) (s : System ι) : System ι :=
  match (lease domainId ownerId ttlMs force env).run ⟨s.db, none⟩ with
  | (store, .ok ownerRecord) =>
    { db := store.db
      owners := if rebuilt then
          Function.update s.owners i (some { ownerRecord, currentEpoch := store.currentEpoch })
        else s.owners }
  | (_, .error _) => s

/-- The release of an owner's lease. -/
def release (owner : Owner) (env : Surroundings) (s : System ι) : System ι :=
  if env.available && !owner.closed then
    { s with
      db := ((releaseOwnerLease domainId owner.ownerRecord.ownerId).run (owner.store s.db)).1.db }
  else s

/-- The state after a step; a step of an owner that does not exist does nothing. -/
def after (step : Step ι) (s : System ι) : System ι :=
  match step with
  | .acquire i ownerId ttlMs force rebuilt env =>
    match s.owners i with
    | none => construct domainId i ownerId ttlMs force rebuilt env s
    | some _ => s
  | .heartbeat i env =>
    match s.owners i with
    | some owner =>
      if owner.heartbeatInterval && !owner.closed then renewal domainId i owner env s else s
    | none => s
  | .renewHeartbeat i env =>
    match s.owners i with
    | some owner => if !owner.closed then renewal domainId i owner env s else s
    | none => s
  | .fence i =>
    match s.owners i with
    | some owner =>
      { s with
        owners := Function.update s.owners i
          (some { owner with
            currentEpoch := (SqliteStore.fence (owner.store s.db)).currentEpoch }) }
    | none => s
  | .releaseOwnerLease i env =>
    match s.owners i with
    | some owner => release domainId owner env s
    | none => s
  | .close i env =>
    match s.owners i with
    | some owner =>
      { release domainId owner env s with
        owners := Function.update s.owners i
          (some { owner with heartbeatInterval := false, closed := true }) }
    | none => s

/-! ## What is said about a run -/

/-- The row of the domain. -/
def System.row (s : System ι) : Option OwnerRecord := s.db.owners.get? domainId

/-- The stored epoch; a domain nobody acquired yet has none, which counts as zero. -/
def System.epoch (s : System ι) : Int := ((s.row domainId).map OwnerRecord.epoch).getD 0

/-- Somebody took the lease over since this owner got its epoch. -/
def Superseded (i : ι) (s : System ι) : Prop :=
  ∃ owner, s.owners i = some owner ∧ owner.ownerRecord.epoch < s.epoch domainId

/-- `verifyEpochFencing` of this owner's store refuses. -/
def Fenced (i : ι) (s : System ι) : Prop :=
  ∃ owner, s.owners i = some owner ∧
    ∃ e, epochFencing domainId (owner.store s.db) = .error e

/-- The step is a heartbeat or a renewal of this owner that reaches the database. -/
def Step.renewsOf (step : Step ι) (i : ι) (s : System ι) : Option (Owner × Surroundings) :=
  match step with
  | .heartbeat j env =>
    if j = i then (s.owners i).bind fun owner =>
      if owner.heartbeatInterval && !owner.closed then some (owner, env) else none
    else none
  | .renewHeartbeat j env =>
    if j = i then (s.owners i).bind fun owner =>
      if !owner.closed then some (owner, env) else none
    else none
  | _ => none

/-- Epoch fencing along a run: the stored epoch never decreases, and an owner that was superseded
    stays fenced from then on, its own heartbeats included, none of which raises the epoch. -/
def EpochFencing (s : System ι) (steps : List (Step ι)) : Prop :=
  ∀ pre mid post, steps = pre ++ mid ++ post →
    let earlier := afterAll (after domainId) s pre
    let later := afterAll (after domainId) s (pre ++ mid)
    earlier.epoch domainId ≤ later.epoch domainId ∧
      ∀ i, Superseded domainId i earlier → Fenced domainId i later ∧
        ∀ step rest, post = step :: rest → (step.renewsOf i later).isSome = true →
          (after domainId step later).epoch domainId = later.epoch domainId

/-- The row holds a superseded owner off: it is another owner's, unexpired, of a live process. -/
def HoldsOff (row : OwnerRecord) (owner : Owner) (env : Surroundings) : Prop :=
  row.ownerId ≠ owner.ownerRecord.ownerId ∧ env.now < row.expiresAt ∧
    isOldProcessAlive row env.hostname env.now env.kill = true

/-- No heartbeat of a superseded owner reaches a row that would let it in. -/
def HeldOff (s : System ι) (step : Step ι) : Prop :=
  ∀ i owner env, step.renewsOf i s = some (owner, env) → Superseded domainId i s →
    env.available = true → ∀ row, s.row domainId = some row → HoldsOff row owner env

/-! ## What acquiring and releasing do to the row -/

section Row

variable {domainId}

/-- An unforced acquisition is refused exactly when the row holds the caller off. -/
theorem nextOwner_refused_iff {row : OwnerRecord} {owner : Owner} {env : Surroundings}
    {ttlMs : Nat} :
    (∃ e, nextOwner (some row) domainId owner.ownerRecord.ownerId env.hostname ttlMs false env.now
        env.kill = .error e) ↔ HoldsOff row owner env := by
  unfold nextOwner HoldsOff
  simp only [Bool.false_or]
  by_cases hid : row.ownerId = owner.ownerRecord.ownerId
  · rw [if_pos hid]
    simp [hid]
  · rw [if_neg hid]
    split
    · rename_i hopen
      simp only [Bool.or_eq_true, decide_eq_true_eq, Bool.not_eq_true'] at hopen
      constructor
      · rintro ⟨_, ⟨⟩⟩
      · rintro ⟨-, hlive, halive⟩
        rcases hopen with hexpired | hdead
        · exact absurd hexpired (Nat.not_le_of_lt hlive)
        · rw [halive] at hdead
          cases hdead
    · rename_i hshut
      simp only [Bool.or_eq_true, decide_eq_true_eq, Bool.not_eq_true', not_or,
        Bool.not_eq_false] at hshut
      refine ⟨fun _ => ⟨hid, Nat.lt_of_not_le hshut.1, hshut.2⟩, fun _ => ⟨_, rfl⟩⟩

end Row

/-! ## What one step can do -/

/-- The invariant: every owner's epoch is one the row had, and its store holds that epoch or the
    one no row has. -/
structure Sound (s : System ι) : Prop where
  record : ∀ i owner, s.owners i = some owner →
    1 ≤ owner.ownerRecord.epoch ∧ owner.ownerRecord.epoch ≤ s.epoch domainId
  store : ∀ i owner, s.owners i = some owner →
    owner.currentEpoch = some owner.ownerRecord.epoch ∨ owner.currentEpoch = some (-1)
  row : ∀ row, s.row domainId = some row → 1 ≤ row.epoch

/-- A step that grants nothing: the epoch and every owner's record stay, and a store keeps its
    epoch or is fenced. -/
structure Quiet (s s' : System ι) : Prop where
  row : (s'.row domainId).map OwnerRecord.epoch = (s.row domainId).map OwnerRecord.epoch
  absent : ∀ i, s.owners i = none ↔ s'.owners i = none
  owners : ∀ i owner', s'.owners i = some owner' → ∃ owner, s.owners i = some owner ∧
    owner'.ownerRecord = owner.ownerRecord ∧
    (owner'.currentEpoch = owner.currentEpoch ∨ owner'.currentEpoch = some (-1))

/-- A step that grants the lease: the row is new, and at most one owner, the one it was granted to,
    has changed. -/
structure Grants (i : ι) (s s' : System ι) : Prop where
  row : ∃ row, s'.row domainId = some row ∧ 1 ≤ row.epoch ∧ s.epoch domainId ≤ row.epoch ∧
    (s'.owners i = s.owners i ∨ ∃ owner, s'.owners i = some owner ∧ owner.ownerRecord = row ∧
      owner.currentEpoch = some row.epoch)
  others : ∀ j, j ≠ i → s'.owners j = s.owners j

variable {domainId}

omit [DecidableEq ι] in
theorem Quiet.refl (s : System ι) : Quiet domainId s s :=
  ⟨rfl, fun _ => Iff.rfl, fun _ owner h => ⟨owner, h, rfl, .inl rfl⟩⟩

variable {s' : System ι} {env : Surroundings}

variable {i : ι} {owner : Owner} {s : System ι}

/-- Changing one owner without its record is quiet. -/
theorem quiet_update {owner' : Owner} (howner : s.owners i = some owner)
    (hrow : (s'.row domainId).map OwnerRecord.epoch = (s.row domainId).map OwnerRecord.epoch)
    (howners : s'.owners = Function.update s.owners i (some owner'))
    (hrecord : owner'.ownerRecord = owner.ownerRecord)
    (hstore : owner'.currentEpoch = owner.currentEpoch ∨ owner'.currentEpoch = some (-1)) :
    Quiet domainId s s' := by
  refine ⟨hrow, ?_, ?_⟩
  · intro j
    rw [howners]
    by_cases hj : j = i
    · subst hj
      simp [howner]
    · rw [Function.update_of_ne hj]
  · intro j other hother
    rw [howners] at hother
    by_cases hj : j = i
    · subst hj
      rw [Function.update_self] at hother
      cases hother
      exact ⟨owner, howner, hrecord, hstore⟩
    · rw [Function.update_of_ne hj] at hother
      exact ⟨other, hother, rfl, .inl rfl⟩

variable (domainId) in
theorem lease_run (ownerId : String) (ttlMs : Nat) (force : Bool) (env : Surroundings)
    (s : SqliteStore) :
    (∃ e, (lease domainId ownerId ttlMs force env).run s = (s, .error e)) ∨
      ∃ row, env.available = true ∧
        nextOwner (s.getOwner domainId) domainId ownerId env.hostname ttlMs force env.now
          env.kill = .ok row ∧
        (lease domainId ownerId ttlMs force env).run s = (granted row s, .ok row) := by
  unfold lease
  by_cases havailable : env.available = true
  · rw [if_pos havailable, SqliteStore.acquireOwnerLease_run]
    cases hnext : nextOwner (s.getOwner domainId) domainId ownerId env.hostname ttlMs force env.now
        env.kill with
    | error e => exact .inl ⟨e, rfl⟩
    | ok row => exact .inr ⟨row, havailable, rfl, rfl⟩
  · rw [if_neg havailable]
    exact .inl ⟨_, rfl⟩

variable {row : OwnerRecord}

omit [DecidableEq ι] in
/-- The epoch a lease is granted with is at least the stored one, and positive if that is. -/
theorem epoch_le_of_nextOwner {ownerId hostname : String} {ttlMs : Nat} {force : Bool}
    {now : Timestamp} {kill : Nat → KillOutcome}
    (hrow : ∀ row, s.row domainId = some row → 1 ≤ row.epoch)
    (h : nextOwner (s.row domainId) domainId ownerId hostname ttlMs force now kill = .ok row) :
    row.domainId = domainId ∧ 1 ≤ row.epoch ∧ s.epoch domainId ≤ row.epoch := by
  obtain ⟨hdomain, hnone, hsome⟩ := nextOwner_ok h
  unfold System.epoch
  cases hold : s.row domainId with
  | none =>
    have hone := hnone hold
    refine ⟨hdomain, by omega, ?_⟩
    show (0 : Int) ≤ row.epoch
    omega
  | some old =>
    have hle := hsome old hold
    have hpos := hrow old hold
    refine ⟨hdomain, by omega, ?_⟩
    show old.epoch ≤ row.epoch
    exact hle

/-- A renewal fences its owner, or is granted the lease. -/
theorem renewal_effect (env : Surroundings) (hsound : Sound domainId s)
    (howner : s.owners i = some owner) :
    (Quiet domainId s (renewal domainId i owner env s)) ∨
      Grants domainId i s (renewal domainId i owner env s) := by
  unfold renewal
  rcases lease_run domainId owner.ownerRecord.ownerId 60000 false env
    (owner.store s.db) with ⟨e, hrun⟩ | ⟨row, -, hnext, hrun⟩
  · rw [hrun]
    exact .inl (quiet_update howner rfl rfl rfl (.inr rfl))
  · rw [hrun]
    obtain ⟨hdomain, hpos, hle⟩ := epoch_le_of_nextOwner hsound.row hnext
    refine .inr ⟨⟨row, row_granted hdomain _, hpos, hle, .inr ⟨_, Function.update_self .., ?_⟩⟩,
      fun j hj => Function.update_of_ne hj ..⟩
    exact ⟨rfl, rfl⟩

theorem construct_effect {ownerId : String} {ttlMs : Nat} {force rebuilt : Bool}
    (hsound : Sound domainId s) :
    (Quiet domainId s (construct domainId i ownerId ttlMs force rebuilt env s)) ∨
      Grants domainId i s (construct domainId i ownerId ttlMs force rebuilt env s) := by
  unfold construct
  rcases lease_run domainId ownerId ttlMs force env ⟨s.db, none⟩ with
    ⟨e, hrun⟩ | ⟨row, -, hnext, hrun⟩
  · rw [hrun]
    exact .inl (Quiet.refl s)
  · rw [hrun]
    obtain ⟨hdomain, hpos, hle⟩ := epoch_le_of_nextOwner hsound.row hnext
    refine .inr ⟨⟨row, row_granted hdomain _, hpos, hle, ?_⟩, ?_⟩
    · cases rebuilt with
      | false => exact .inl rfl
      | true => exact .inr ⟨_, Function.update_self .., rfl, rfl⟩
    · intro j hj
      cases rebuilt with
      | false => rfl
      | true => exact Function.update_of_ne hj ..

omit [DecidableEq ι] in
theorem release_row (owner : Owner) (env : Surroundings) (s : System ι) :
    ((release domainId owner env s).row domainId).map OwnerRecord.epoch =
      (s.row domainId).map OwnerRecord.epoch := by
  unfold release
  split
  · exact SqliteStore.row_release domainId owner.ownerRecord.ownerId domainId (owner.store s.db)
  · rfl

omit [DecidableEq ι] in
theorem release_owners (owner : Owner) (env : Surroundings) (s : System ι) :
    (release domainId owner env s).owners = s.owners := by
  unfold release
  split <;> rfl

/-- What a step can do: nothing that matters, or a grant to a new owner or to one that renews. -/
theorem step_effect (hsound : Sound domainId s) (step : Step ι) :
    Quiet domainId s (after domainId step s) ∨
      ∃ i, Grants domainId i s (after domainId step s) ∧
        (s.owners i = none ∨ (step.renewsOf i s).isSome = true) := by
  cases step with
  | acquire i =>
    simp only [after]
    cases howner : s.owners i with
    | some owner => exact .inl (Quiet.refl s)
    | none =>
      rcases construct_effect hsound with hquiet | hgrants
      · exact .inl hquiet
      · exact .inr ⟨i, hgrants, .inl howner⟩
  | heartbeat i env | renewHeartbeat i env =>
    simp only [after]
    cases howner : s.owners i with
    | none => exact .inl (Quiet.refl s)
    | some =>
      simp only
      split
      · rename_i hacts
        rcases renewal_effect env hsound howner with hquiet | hgrants
        · exact .inl hquiet
        · exact .inr ⟨i, hgrants, .inr (by simpa [Step.renewsOf, howner] using hacts)⟩
      · exact .inl (Quiet.refl s)
  | fence i =>
    simp only [after]
    cases howner : s.owners i with
    | none => exact .inl (Quiet.refl s)
    | some => exact .inl (quiet_update howner rfl rfl rfl (.inr rfl))
  | releaseOwnerLease i env =>
    simp only [after]
    cases howner : s.owners i with
    | none => exact .inl (Quiet.refl s)
    | some owner =>
      refine .inl ⟨release_row owner env s, ?_, ?_⟩
      · intro j
        rw [release_owners]
      · intro j other hother
        rw [release_owners] at hother
        exact ⟨other, hother, rfl, .inl rfl⟩
  | close i env =>
    simp only [after]
    cases howner : s.owners i with
    | none => exact .inl (Quiet.refl s)
    | some owner =>
      exact .inl (quiet_update howner (release_row owner env s) rfl rfl (.inl rfl))

/-! ## The invariant -/

/-- No owner acquired yet, over any database whose epochs are positive. -/
structure Initial (domainId : String) (s : System ι) : Prop where
  owners : ∀ i, s.owners i = none
  row : ∀ row, s.row domainId = some row → 1 ≤ row.epoch

omit [DecidableEq ι] in
theorem sound_of_initial (h : Initial domainId s) : Sound domainId s := by
  refine ⟨fun i owner howner => ?_, fun i owner howner => ?_, h.row⟩
  · rw [h.owners i] at howner
    cases howner
  · rw [h.owners i] at howner
    cases howner

omit [DecidableEq ι] in
theorem Quiet.epoch (h : Quiet domainId s s') : s'.epoch domainId = s.epoch domainId := by
  unfold System.epoch
  rw [h.row]

omit [DecidableEq ι] in
theorem Quiet.sound (h : Quiet domainId s s') (hsound : Sound domainId s) : Sound domainId s' := by
  refine ⟨?_, ?_, ?_⟩
  · intro i owner' howner'
    obtain ⟨owner, howner, hrecord, -⟩ := h.owners i owner' howner'
    rw [hrecord, h.epoch]
    exact hsound.record i owner howner
  · intro i owner' howner'
    obtain ⟨owner, howner, hrecord, hstore⟩ := h.owners i owner' howner'
    rw [hrecord]
    rcases hstore with hsame | hfenced
    · rw [hsame]
      exact hsound.store i owner howner
    · exact .inr hfenced
  · intro row' hrow'
    have hepoch := h.row
    rw [hrow', Option.map_some] at hepoch
    obtain ⟨row, hrow, heq⟩ := Option.map_eq_some_iff.1 hepoch.symm
    rw [← heq]
    exact hsound.row row hrow

omit [DecidableEq ι] in
theorem Grants.epoch (h : Grants domainId i s s') : s.epoch domainId ≤ s'.epoch domainId := by
  obtain ⟨row, hrow, -, hle, -⟩ := h.row
  unfold System.epoch at hle ⊢
  rw [hrow]
  exact hle

omit [DecidableEq ι] in
theorem Grants.sound (h : Grants domainId i s s') (hsound : Sound domainId s) :
    Sound domainId s' := by
  have hepoch := h.epoch
  obtain ⟨row, hrow, hpos, hle, hself⟩ := h.row
  have hnew : s'.epoch domainId = row.epoch := by
    unfold System.epoch
    rw [hrow]
    rfl
  have hold : ∀ j owner, s.owners j = some owner →
      1 ≤ owner.ownerRecord.epoch ∧ owner.ownerRecord.epoch ≤ s'.epoch domainId := by
    intro j owner howner
    have hrecord := hsound.record j owner howner
    exact ⟨hrecord.1, Int.le_trans hrecord.2 hepoch⟩
  -- Either the owner is as it was, or it is the one that was granted the row.
  have hcase : ∀ j owner, s'.owners j = some owner → s.owners j = some owner ∨
      (owner.ownerRecord = row ∧ owner.currentEpoch = some row.epoch) := by
    intro j owner howner
    by_cases hj : j = i
    · subst hj
      rcases hself with hsame | ⟨owner', howner', hrecord, hstore⟩
      · exact .inl (hsame ▸ howner)
      · rw [howner'] at howner
        cases howner
        exact .inr ⟨hrecord, hstore⟩
    · exact .inl (h.others j hj ▸ howner)
  refine ⟨?_, ?_, ?_⟩
  · intro j owner howner
    rcases hcase j owner howner with hbefore | ⟨hrecord, -⟩
    · exact hold j owner hbefore
    · rw [hrecord, hnew]
      exact ⟨hpos, Int.le_refl _⟩
  · intro j owner howner
    rcases hcase j owner howner with hbefore | ⟨hrecord, hstore⟩
    · exact hsound.store j owner hbefore
    · rw [hrecord]
      exact .inl hstore
  · intro row' hrow'
    rw [hrow] at hrow'
    cases hrow'
    exact hpos

theorem sound_after (hsound : Sound domainId s) (step : Step ι) :
    Sound domainId (after domainId step s) := by
  rcases step_effect hsound step with hquiet | ⟨i, hgrants, -⟩
  · exact hquiet.sound hsound
  · exact hgrants.sound hsound

theorem epoch_le_after (hsound : Sound domainId s) (step : Step ι) :
    s.epoch domainId ≤ (after domainId step s).epoch domainId := by
  rcases step_effect hsound step with hquiet | ⟨i, hgrants, -⟩
  · exact Int.le_of_eq hquiet.epoch.symm
  · exact hgrants.epoch

omit [DecidableEq ι] in
/-- A superseded owner's store is refused. -/
theorem fenced_of_superseded (hsound : Sound domainId s) (h : Superseded domainId i s) :
    Fenced domainId i s := by
  obtain ⟨owner, howner, hlt⟩ := h
  refine ⟨owner, howner, ?_⟩
  have hrecord := hsound.record i owner howner
  unfold System.epoch at hlt
  cases hrow : s.row domainId with
  | none =>
    rw [hrow] at hlt
    have hneg : owner.ownerRecord.epoch < 0 := hlt
    omega
  | some row =>
    rw [hrow] at hlt
    have hless : owner.ownerRecord.epoch < row.epoch := hlt
    have hpos := hsound.row row hrow
    have hget : (owner.store s.db).getOwner domainId = some row := hrow
    unfold epochFencing
    rw [hget]
    rcases hsound.store i owner howner with hstore | hstore
    · have hepoch : (owner.store s.db).currentEpoch = some owner.ownerRecord.epoch := hstore
      rw [hepoch]
      exact ⟨_, if_pos (by omega)⟩
    · have hepoch : (owner.store s.db).currentEpoch = some (-1) := hstore
      rw [hepoch]
      exact ⟨_, if_pos (by omega)⟩

/-! ## Renewals of superseded owners -/

variable (domainId) in
/-- A renewal as a whole: who renews, and what happens to the system. -/
theorem after_renewsOf {step : Step ι} (h : step.renewsOf i s = some (owner, env)) :
    s.owners i = some owner ∧ after domainId step s = renewal domainId i owner env s := by
  cases step with
  | heartbeat j | renewHeartbeat j =>
    simp only [Step.renewsOf] at h
    split at h
    · rename_i hj
      subst hj
      cases howner : s.owners j with
      | none =>
        rw [howner] at h
        cases h
      | some =>
        rw [howner, Option.bind_some] at h
        split at h
        · rename_i hacts
          cases h
          refine ⟨rfl, ?_⟩
          simp only [after, howner]
          exact if_pos hacts
        · cases h
    · cases h
  | _ => cases h

/-- A renewal that is held off, or that finds no database, grants nothing. -/
theorem renewal_refused (howner : s.owners i = some owner)
    (hrow : s.row domainId = some row) (h : env.available = true → HoldsOff row owner env) :
    Quiet domainId s (renewal domainId i owner env s) := by
  unfold renewal
  rcases lease_run domainId owner.ownerRecord.ownerId 60000 false env
    (owner.store s.db) with ⟨e, hrun⟩ | ⟨row', havailable, hnext, -⟩
  · rw [hrun]
    exact quiet_update howner rfl rfl rfl (.inr rfl)
  · have hget : (owner.store s.db).getOwner domainId = some row := hrow
    rw [hget] at hnext
    obtain ⟨e, he⟩ := nextOwner_refused_iff.2 (h havailable)
    rw [hnext] at he
    cases he

/-- A renewal that is not held off makes the owner's store valid. -/
theorem renewal_not_fenced (hrow : s.row domainId = some row)
    (havailable : env.available = true) (h : ¬ HoldsOff row owner env) :
    ¬ Fenced domainId i (renewal domainId i owner env s) := by
  unfold renewal lease
  rw [if_pos havailable, SqliteStore.acquireOwnerLease_run]
  have hget : (owner.store s.db).getOwner domainId = some row := hrow
  rw [hget]
  cases hnext : nextOwner (some row) domainId owner.ownerRecord.ownerId env.hostname 60000 false
      env.now env.kill with
  | error e => exact absurd (nextOwner_refused_iff.1 ⟨e, hnext⟩) h
  | ok row' =>
    rintro ⟨owner', howner', e, he⟩
    simp only [Function.update_self, Option.some.injEq] at howner'
    subst howner'
    have hnew := row_granted (nextOwner_ok hnext).1 (owner.store s.db)
    unfold epochFencing at he
    have hgetnew : SqliteStore.getOwner ⟨(granted row' (owner.store s.db)).db,
        some row'.epoch⟩ domainId = some row' := hnew
    simp only [Owner.store, granted] at he hgetnew
    rw [hgetnew] at he
    simp at he

/-! ## Runs -/

omit [DecidableEq ι] in
theorem Quiet.superseded (h : Quiet domainId s s') (hsup : Superseded domainId i s) :
    Superseded domainId i s' := by
  obtain ⟨owner, howner, hlt⟩ := hsup
  cases howner' : s'.owners i with
  | none =>
    rw [(h.absent i).2 howner'] at howner
    cases howner
  | some owner' =>
    obtain ⟨before, hbefore, hrecord, -⟩ := h.owners i owner' howner'
    rw [howner] at hbefore
    cases hbefore
    exact ⟨owner', howner', by rw [hrecord, h.epoch]; exact hlt⟩

/-- A superseded owner that renews without being let in leaves the epoch where it is. -/
theorem quiet_of_heldOff {step : Step ι} (hsound : Sound domainId s)
    (hheld : HeldOff domainId s step) (hsup : Superseded domainId i s)
    (hrenews : (step.renewsOf i s).isSome = true) : Quiet domainId s (after domainId step s) := by
  obtain ⟨⟨owner, env⟩, hrenew⟩ := Option.isSome_iff_exists.1 hrenews
  obtain ⟨howner, hafter⟩ := after_renewsOf domainId hrenew
  rw [hafter]
  obtain ⟨owner', howner', hlt⟩ := hsup
  rw [howner] at howner'
  cases howner'
  cases hrow : s.row domainId with
  | none =>
    have hrecord := hsound.record i owner howner
    unfold System.epoch at hlt
    rw [hrow] at hlt
    have hneg : owner.ownerRecord.epoch < 0 := hlt
    omega
  | some row =>
    refine renewal_refused howner hrow fun havailable => ?_
    exact hheld i owner env hrenew ⟨owner, howner, hlt⟩ havailable row hrow

/-- A superseded owner stays superseded over every step that holds it off. -/
theorem superseded_after {step : Step ι} (hsound : Sound domainId s)
    (hheld : HeldOff domainId s step) (hsup : Superseded domainId i s) :
    Superseded domainId i (after domainId step s) := by
  rcases step_effect hsound step with hquiet | ⟨j, hgrants, hwho⟩
  · exact hquiet.superseded hsup
  by_cases hj : j = i
  · subst hj
    rcases hwho with hnone | hrenews
    · obtain ⟨owner, howner, -⟩ := hsup
      rw [hnone] at howner
      cases howner
    · exact (quiet_of_heldOff hsound hheld hsup hrenews).superseded hsup
  · obtain ⟨owner, howner, hlt⟩ := hsup
    refine ⟨owner, ?_, Int.lt_of_lt_of_le hlt hgrants.epoch⟩
    rw [hgrants.others i fun h => hj h.symm]
    exact howner

theorem superseded_afterAll {steps : List (Step ι)} (hsound : Sound domainId s)
    (halong : Along (after domainId) (HeldOff domainId) s steps) (hsup : Superseded domainId i s) :
    Superseded domainId i (afterAll (after domainId) s steps) := by
  induction steps generalizing s with
  | nil => exact hsup
  | cons step steps ih =>
    exact ih (sound_after hsound step) halong.2 (superseded_after hsound halong.1 hsup)

/-- Whatever the owners do, the stored epoch never decreases. -/
theorem epoch_le_afterAll (hsound : Sound domainId s) (steps : List (Step ι)) :
    s.epoch domainId ≤ (afterAll (after domainId) s steps).epoch domainId := by
  induction steps generalizing s with
  | nil => exact Int.le_refl _
  | cons step steps ih =>
    exact Int.le_trans (epoch_le_after hsound step) (ih (sound_after hsound step))

/-- Epoch fencing holds along a run exactly when no heartbeat or renewal of a superseded owner
    finds the row expired, released, of a dead process, or under its own id. -/
theorem epochFencing_iff {s : System ι} (h : Initial domainId s) (steps : List (Step ι)) :
    EpochFencing domainId s steps ↔ Along (after domainId) (HeldOff domainId) s steps := by
  have hstep : ∀ (t : System ι) (step : Step ι), Sound domainId t →
      Sound domainId (after domainId step t) := fun _ step ht => sound_after ht step
  have hsound : ∀ pre, Sound domainId (afterAll (after domainId) s pre) := fun pre =>
    afterAll_invariant hstep (sound_of_initial h) pre
  constructor
  · intro hfencing
    rw [along_iff]
    intro pre step post heq i owner env hrenew hsup havailable row hrow
    by_contra hopen
    obtain ⟨-, hafter⟩ := after_renewsOf domainId hrenew
    have hfenced := ((hfencing pre [step] post (by rw [heq]; simp)).2 i hsup).1
    rw [afterAll_append] at hfenced
    simp only [afterAll] at hfenced
    rw [hafter] at hfenced
    exact renewal_not_fenced hrow havailable hopen hfenced
  · rintro halong pre mid post rfl
    have hmid := (along_append.1 (along_append.1 halong).1).2
    have hrest := (along_append.1 halong).2
    rw [afterAll_append] at hrest ⊢
    have hkept : ∀ i, Superseded domainId i (afterAll (after domainId) s pre) →
        Superseded domainId i (afterAll (after domainId) (afterAll (after domainId) s pre) mid) :=
      fun i => superseded_afterAll (hsound pre) hmid
    refine ⟨epoch_le_afterAll (hsound pre) mid, fun i hsup => ⟨?_, ?_⟩⟩
    · refine fenced_of_superseded ?_ (hkept i hsup)
      rw [← afterAll_append]
      exact hsound (pre ++ mid)
    · rintro step rest rfl hrenews
      refine (quiet_of_heldOff ?_ hrest.1 (hkept i hsup) hrenews).epoch
      rw [← afterAll_append]
      exact hsound (pre ++ mid)

/-- Two owners of an empty domain: the first one's lease runs out and the second takes over. -/
def takeOver : List (Step Bool) := [
  .acquire false "owner-7-0" 60000 false true
    { hostname := "h", now := 0, kill := fun _ => .delivered },
  .acquire true "owner-9-60000" 60000 false true
    { hostname := "h", now := 60000, kill := fun _ => .delivered }]

/-- The second closes, and the timer of the first fires. -/
def lateHeartbeat : List (Step Bool) := [
  .close true { hostname := "h", now := 60001, kill := fun _ => .delivered },
  .heartbeat false { hostname := "h", now := 60002, kill := fun _ => .delivered }]

def emptySystem : System Bool := ⟨Database.empty, fun _ => none⟩

theorem initial_emptySystem : Initial "d" emptySystem := by
  refine ⟨fun _ => rfl, ?_⟩
  rintro row ⟨⟩

/-- A takeover alone keeps the first owner fenced. -/
theorem epochFencing_takeOver : EpochFencing "d" emptySystem takeOver := by
  refine (epochFencing_iff initial_emptySystem takeOver).2 ⟨?_, ?_, trivial⟩
  · rintro i owner env ⟨⟩
  · rintro i owner env ⟨⟩

/-- After the run the first owner's store is valid again, in the third epoch. -/
theorem superseded_owner_revived :
    Initial "d" emptySystem ∧ ¬ EpochFencing "d" emptySystem (takeOver ++ lateHeartbeat) := by
  refine ⟨initial_emptySystem, fun h => ?_⟩
  have hfencing := h takeOver lateHeartbeat [] (List.append_nil _).symm
  have hrecord : ((afterAll (after "d") emptySystem takeOver).owners false).map
      (fun owner => owner.ownerRecord.epoch) = some 1 := by decide +kernel
  have hepoch : (afterAll (after "d") emptySystem takeOver).epoch "d" = 2 := by decide +kernel
  have hvalid : ((afterAll (after "d") emptySystem (takeOver ++ lateHeartbeat)).owners false).map
      (fun owner => (epochFencing "d" (owner.store
        (afterAll (after "d") emptySystem (takeOver ++ lateHeartbeat)).db)).toOption) =
      some (some ()) := by decide +kernel
  obtain ⟨owner, howner, hone⟩ := Option.map_eq_some_iff.1 hrecord
  have hfenced := (hfencing.2 false ⟨owner, howner, by rw [hone, hepoch]; decide⟩).1
  obtain ⟨owner', howner', e, he⟩ := hfenced
  rw [howner', Option.map_some, he] at hvalid
  cases hvalid

/-! ## Who may write -/

/-- Only the owner that the row names gets through the fence. -/
def OnlyNamedWrites (domainId : String) (s : System ι) : Prop :=
  ∀ i owner, s.owners i = some owner → ¬ Fenced domainId i s → ∃ row, s.row domainId = some row ∧
    row.ownerId = owner.ownerRecord.ownerId ∧ row.epoch = owner.ownerRecord.epoch

/-- A row that keeps its epoch keeps its name. -/
def KeepsName (row : OwnerRecord) (row' : Option OwnerRecord) : Prop :=
  ∃ r, row' = some r ∧ (r.epoch = row.epoch → r.ownerId = row.ownerId)

omit [DecidableEq ι] in
theorem keepsName_lease (store : SqliteStore) (env : Surroundings)
    (hrow : store.getOwner domainId = some row) (ownerId : String) (ttlMs : Nat) (force : Bool) :
    KeepsName row (((lease domainId ownerId ttlMs force env).run store).1.getOwner domainId) := by
  rcases lease_run domainId ownerId ttlMs force env store with ⟨e, hrun⟩ | ⟨row', -, hnext, hrun⟩
  · rw [hrun]
    exact ⟨row, hrow, fun _ => rfl⟩
  · rw [hrun]
    refine ⟨row', row_granted (nextOwner_ok hnext).1 store, fun hepoch => ?_⟩
    rw [hrow] at hnext
    simp only [nextOwner] at hnext
    split at hnext
    · rename_i hsame
      cases hnext
      exact hsame.symm
    -- Another owner is granted the next epoch.
    split at hnext
    · cases hnext
      change row.epoch + 1 = row.epoch at hepoch
      omega
    · cases hnext

omit [DecidableEq ι] in
theorem keepsName_release (hrow : s.row domainId = some row) (owner : Owner) :
    KeepsName row ((release domainId owner env s).row domainId) := by
  unfold release
  split
  · change KeepsName row ((s.db.owners.updateWhere _ SqliteStore.expiredRow
      SqliteStore.expiredRow_domainId).get? domainId)
    rw [Table.get?_updateWhere, show s.db.owners.get? domainId = some row from hrow]
    refine ⟨_, rfl, fun _ => ?_⟩
    simp only
    split <;> rfl
  · exact ⟨row, hrow, fun _ => rfl⟩

theorem keepsName_after (hrow : s.row domainId = some row) (step : Step ι) :
    KeepsName row ((after domainId step s).row domainId) := by
  have hsame : KeepsName row (s.row domainId) := ⟨row, hrow, fun _ => rfl⟩
  have hrenewal : ∀ i owner env, KeepsName row ((renewal domainId i owner env s).row domainId) := by
    intro i owner env
    have hkeeps :=
      keepsName_lease (owner.store s.db) env hrow owner.ownerRecord.ownerId 60000 false
    unfold renewal
    split <;> rename_i hrun <;> rw [hrun] at hkeeps <;> exact hkeeps
  cases step with
  | acquire i ownerId ttlMs force rebuilt env =>
    have hkeeps := keepsName_lease ⟨s.db, none⟩ env hrow ownerId ttlMs force
    simp only [after, construct]
    split
    · split
      · rename_i hrun
        rw [hrun] at hkeeps
        exact hkeeps
      · exact hsame
    · exact hsame
  | heartbeat | renewHeartbeat =>
    simp only [after]
    split
    · split
      · exact hrenewal ..
      · exact hsame
    · exact hsame
  | fence =>
    simp only [after]
    split <;> exact hsame
  | releaseOwnerLease | close =>
    simp only [after]
    split
    · exact keepsName_release hrow _
    · exact hsame

/-- An owner with the stored epoch is the one that the row names. -/
def NamedByRow (domainId : String) (s : System ι) : Prop :=
  ∀ i owner, s.owners i = some owner → ∃ row, s.row domainId = some row ∧
    (row.epoch = owner.ownerRecord.epoch → row.ownerId = owner.ownerRecord.ownerId)

theorem namedByRow_after (hsound : Sound domainId s) (h : NamedByRow domainId s) (step : Step ι) :
    NamedByRow domainId (after domainId step s) := by
  -- An owner from before the step has at most the epoch from before.
  have hold : ∀ i owner, s.owners i = some owner →
      ∃ row, (after domainId step s).row domainId = some row ∧
        (row.epoch = owner.ownerRecord.epoch → row.ownerId = owner.ownerRecord.ownerId) := by
    intro i owner howner
    obtain ⟨row, hrow, hname⟩ := h i owner howner
    obtain ⟨row', hrow', hkept⟩ := keepsName_after hrow step
    refine ⟨row', hrow', fun hepoch => ?_⟩
    have hrecord := (hsound.record i owner howner).2
    have hle := epoch_le_after hsound step
    simp only [System.epoch, hrow, hrow', Option.map_some, Option.getD_some] at hrecord hle
    rw [hkept (by omega), hname (by omega)]
  intro i owner' howner'
  rcases step_effect hsound step with hquiet | ⟨j, hgrants, -⟩
  · obtain ⟨owner, howner, hrecord, -⟩ := hquiet.owners i owner' howner'
    rw [hrecord]
    exact hold i owner howner
  · obtain ⟨row, hrow, -, -, hself⟩ := hgrants.row
    by_cases hj : i = j
    · subst hj
      rcases hself with hsame | ⟨owner, howner, hrecord, -⟩
      · exact hold i owner' (hsame ▸ howner')
      · rw [howner] at howner'
        cases howner'
        exact ⟨row, hrow, fun _ => by rw [hrecord]⟩
    · exact hold i owner' (hgrants.others i hj ▸ howner')

/-- At every moment of every run, also after a superseded owner has come back. -/
theorem onlyNamedWrites (h : Initial domainId s) (steps : List (Step ι)) :
    OnlyNamedWrites domainId (afterAll (after domainId) s steps) := by
  obtain ⟨hsound, hnamed⟩ := afterAll_invariant
    (I := fun t => Sound domainId t ∧ NamedByRow domainId t)
    (fun _ step ht => ⟨sound_after ht.1 step, namedByRow_after ht.1 ht.2 step⟩)
    ⟨sound_of_initial h, fun i owner howner => nomatch (h.owners i).symm.trans howner⟩ steps
  intro i owner howner hfree
  obtain ⟨row, hrow, hname⟩ := hnamed i owner howner
  have hepoch : row.epoch = owner.ownerRecord.epoch := by
    by_contra hne
    refine hfree ⟨owner, howner, ?_⟩
    have hpos := hsound.row row hrow
    have hget : (owner.store (afterAll (after domainId) s steps).db).getOwner domainId = some row :=
      hrow
    unfold epochFencing
    rw [hget]
    rcases hsound.store i owner howner with hstore | hstore <;>
      simp only [Owner.store, hstore] <;> rw [if_pos (by omega)] <;> exact ⟨_, rfl⟩
  exact ⟨row, hrow, hname hepoch, hepoch⟩

theorem lateHeartbeat_named :
    OnlyNamedWrites "d" (afterAll (after "d") emptySystem (takeOver ++ lateHeartbeat)) :=
  onlyNamedWrites initial_emptySystem _

end Ownership
end XioFlow
