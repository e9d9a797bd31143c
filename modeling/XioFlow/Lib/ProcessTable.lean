/-
  XioFlow.Lib.ProcessTable

  The process table of a POSIX system as it moves on: a running process forks,
  exits, leaves its group with setsid; a process that has exited stays listed
  as a zombie until it is collected, and its children pass to process 1.

  A pid that was once given away is not given away again, so what has left the
  table stays away (`Evolves.gone`), and so does a group without members whose
  leader keeps it (`Evolves.groupGone`).
-/

import XioFlow.Lib.Table

namespace XioFlow.Lib

/-- One line of the process table. -/
structure ProcessEntry where
  pid : Nat
  ppid : Nat
  pgid : Nat
  zombie : Bool := false
  deriving DecidableEq

/-- The lines of a complete reading, one for each pid. -/
abbrev ProcessTable : Type := Table ProcessEntry ProcessEntry.pid

namespace ProcessTable

/-- The pid is listed and has not exited. -/
def Running (t : ProcessTable) (pid : Nat) : Prop := ∃ e ∈ t.rows, e.pid = pid ∧ e.zombie = false

/-- It runs within the group. -/
def RunningIn (t : ProcessTable) (pgid pid : Nat) : Prop :=
  ∃ e ∈ t.rows, e.pid = pid ∧ e.pgid = pgid ∧ e.zombie = false

/-- `kill(pid, 0)` finds a process, a zombie included. -/
def exists? (t : ProcessTable) (pid : Nat) : Bool := t.rows.any fun e => e.pid == pid

/-- `kill(-pgid, 0)` finds a process of the group, a zombie included. -/
def groupExists (t : ProcessTable) (pgid : Nat) : Bool := t.rows.any fun e => e.pgid == pgid

variable {t : ProcessTable}

theorem exists?_iff {pid : Nat} : t.exists? pid = true ↔ ∃ e ∈ t.rows, e.pid = pid := by
  simp [exists?, List.any_eq_true]

theorem groupExists_iff {pgid : Nat} : t.groupExists pgid = true ↔ ∃ e ∈ t.rows, e.pgid = pgid := by
  simp [groupExists, List.any_eq_true]

theorem RunningIn.running {pgid pid : Nat} (h : t.RunningIn pgid pid) : t.Running pid := by
  obtain ⟨e, he, hpid, _, hz⟩ := h
  exact ⟨e, he, hpid, hz⟩

end ProcessTable

/-- The table at a moment, and the pids given away up to it. -/
structure Os where
  table : ProcessTable
  used : List Nat
  listed : ∀ e ∈ table.rows, e.pid ∈ used

namespace Os

/-! ## What can happen -/

/-- A running process makes a child, which takes a new pid and its parent's group. -/
def fork (os : Os) (parent child : Nat) : Option Os :=
  match os.table.get? parent with
  | none => none
  | some p =>
    if p.zombie then none
    else if h : child ∈ os.used then none
    else
      have hfresh : os.table.get? child = none :=
        Table.get?_eq_none_iff.2 fun e he hpid => h (hpid ▸ os.listed e he)
      some {
        table := os.table.append { pid := child, ppid := parent, pgid := p.pgid } hfresh
        used := child :: os.used
        listed := by
          intro e he
          rcases Table.mem_append_rows.1 he with he | rfl
          · exact List.mem_cons_of_mem _ (os.listed e he)
          · exact List.mem_cons_self }

/-- A running process exits: it is a zombie, and its children are those of process 1. -/
def exit (os : Os) (pid : Nat) : Os where
  table := os.table.updateWhere (fun _ => true)
    (fun e => { e with
      zombie := e.zombie || e.pid == pid
      ppid := if e.ppid = pid then 1 else e.ppid }) fun _ => rfl
  used := os.used
  listed := by
    intro e he
    obtain ⟨e', he', rfl⟩ := List.mem_map.1 he
    exact os.listed e' he'

/-- A zombie is collected. -/
def reap (os : Os) (pid : Nat) : Os where
  table := os.table.deleteWhere fun e => e.pid == pid && e.zombie
  used := os.used
  listed := fun e he => os.listed e (List.mem_filter.1 he).1

/-- A running process that leads no group leads one of its own from now on. -/
def setsid (os : Os) (pid : Nat) : Os where
  table := os.table.updateWhere (fun e => e.pid == pid && !e.zombie)
    (fun e => { e with pgid := e.pid }) fun _ => rfl
  used := os.used
  listed := by
    intro e he
    obtain ⟨e', he', rfl⟩ := List.mem_map.1 he
    have hmem := os.listed e' he'
    split
    · exact hmem
    · exact hmem

/-- One thing that happens. -/
inductive Event where
  | fork (parent child : Nat)
  | exit (pid : Nat)
  | reap (pid : Nat)
  | setsid (pid : Nat)

/-- What it makes of the table; a fork of no running process, or onto an old pid, is none. -/
def after (os : Os) : Event → Os
  | .fork parent child => (os.fork parent child).getD os
  | .exit pid => os.exit pid
  | .reap pid => os.reap pid
  | .setsid pid => os.setsid pid

/-- One moment leads to the other. -/
def Evolves (os os' : Os) : Prop := ∃ events : List Event, events.foldl after os = os'

theorem Evolves.refl (os : Os) : os.Evolves os := ⟨[], rfl⟩

variable {os os' : Os} {leader : Nat}

/-- Where every event keeps what is so, so does the time. -/
theorem Evolves.invariant {I : Os → Prop} (step : ∀ os e, I os → I (os.after e))
    (h : os.Evolves os') (hI : I os) : I os' := by
  obtain ⟨events, rfl⟩ := h
  induction events generalizing os with
  | nil => exact hI
  | cons e events ih => exact ih (step os e hI)

/-! ## Pids -/

theorem mem_fork {parent child : Nat} (h : os.fork parent child = some os') :
    ∃ p ∈ os.table.rows, child ∉ os.used ∧ os'.used = child :: os.used ∧
      ∀ e, e ∈ os'.table.rows ↔
        e ∈ os.table.rows ∨ e = { pid := child, ppid := parent, pgid := p.pgid } := by
  rw [fork] at h
  cases hget : os.table.get? parent with
  | none =>
    rw [hget] at h
    cases h
  | some p =>
    rw [hget] at h
    simp only at h
    split at h
    · cases h
    · split at h
      · cases h
      · rename_i hfresh
        cases h
        refine ⟨p, Table.mem_of_get? hget, hfresh, rfl, fun e => ?_⟩
        show e ∈ os.table.rows ++ [_] ↔ _
        rw [List.mem_append, List.mem_singleton]

/-- What an event leaves or makes of a line. -/
theorem mem_after {e : Event} {x : ProcessEntry} (hx : x ∈ (os.after e).table.rows) :
    (∃ y ∈ os.table.rows, y.pid = x.pid ∧ (x.zombie = false → y.zombie = false) ∧
        (x.pgid = y.pgid ∨ x.pgid = x.pid)) ∨
      x.pid ∉ os.used ∧ ∃ p ∈ os.table.rows, x.pgid = p.pgid := by
  cases e with
  | fork parent child =>
    cases hfork : os.fork parent child with
    | none =>
      rw [after, hfork] at hx
      exact .inl ⟨x, hx, rfl, id, .inl rfl⟩
    | some =>
      rw [after, hfork] at hx
      obtain ⟨p, hp, hfresh, -, hrows⟩ := mem_fork hfork
      rcases (hrows x).1 hx with hold | rfl
      · exact .inl ⟨x, hold, rfl, id, .inl rfl⟩
      · exact .inr ⟨hfresh, p, hp, rfl⟩
  | exit =>
    obtain ⟨y, hy, rfl⟩ := List.mem_map.1 hx
    refine .inl ⟨y, hy, rfl, fun hz => ?_, .inl rfl⟩
    exact (Bool.or_eq_false_iff.1 hz).1
  | reap => exact .inl ⟨x, (List.mem_filter.1 hx).1, rfl, id, .inl rfl⟩
  | setsid =>
    obtain ⟨y, hy, rfl⟩ := List.mem_map.1 hx
    left
    split
    · exact ⟨y, hy, rfl, id, .inr rfl⟩
    · exact ⟨y, hy, rfl, id, .inl rfl⟩

theorem used_after (os : Os) (e : Event) : os.used ⊆ (os.after e).used := by
  intro pid hpid
  cases e with
  | fork parent child =>
    cases hfork : os.fork parent child with
    | none =>
      rw [after, hfork]
      exact hpid
    | some os' =>
      obtain ⟨p, -, -, hused, -⟩ := mem_fork hfork
      rw [after, hfork]
      show pid ∈ os'.used
      rw [hused]
      exact List.mem_cons_of_mem _ hpid
  | exit | reap | setsid => exact hpid

/-- Pids once given away stay so. -/
theorem Evolves.used (h : os.Evolves os') : os.used ⊆ os'.used := by
  intro pid hpid
  exact h.invariant (I := fun o => pid ∈ o.used) (fun o e ho => used_after o e ho) hpid

/-- A pid that has left the table stays away. -/
theorem Evolves.gone {pid : Nat} (h : os.Evolves os') (hused : pid ∈ os.used)
    (hgone : ∀ e ∈ os.table.rows, e.pid ≠ pid) : ∀ e ∈ os'.table.rows, e.pid ≠ pid := by
  have hboth := h.invariant (I := fun o => pid ∈ o.used ∧ ∀ e ∈ o.table.rows, e.pid ≠ pid)
    (fun o ev ho => by
      refine ⟨used_after o ev ho.1, fun e he hpid => ?_⟩
      rcases mem_after he with ⟨y, hy, hsame, -, -⟩ | ⟨hfresh, -⟩
      · exact ho.2 y hy (hsame.trans hpid)
      · exact hfresh (hpid ▸ ho.1)) ⟨hused, hgone⟩
  exact hboth.2

/-- A process that runs, and whose pid was given away before, ran before. -/
theorem Evolves.ran {x : ProcessEntry} (h : os.Evolves os') (hx : x ∈ os'.table.rows)
    (hused : x.pid ∈ os.used) :
    ∃ y ∈ os.table.rows, y.pid = x.pid ∧ (x.zombie = false → y.zombie = false) ∧
      (x.pgid = y.pgid ∨ x.pgid = x.pid) := by
  -- Backwards through the events: each line comes from a line of the moment before.
  obtain ⟨events, rfl⟩ := h
  induction events generalizing os with
  | nil => exact ⟨x, hx, rfl, id, .inl rfl⟩
  | cons e events ih =>
    obtain ⟨y, hy, hpid, hz, hg⟩ := ih (used_after os e hused) hx
    rcases mem_after hy with ⟨z, hz', hpid', hzz, hgz⟩ | ⟨hfresh, -⟩
    · refine ⟨z, hz', hpid'.trans hpid, fun hx0 => hzz (hz hx0), ?_⟩
      rcases hg with hg | hg
      · rcases hgz with hgz | hgz
        · exact .inl (hg.trans hgz)
        · exact .inr (hg.trans (hgz.trans hpid))
      · exact .inr hg
    · exact absurd (hpid ▸ hused) hfresh

/-! ## Groups -/

/-- The leader's pid was given away, and the leader, where it is listed, is in its own group. -/
structure Led (os : Os) (leader : Nat) : Prop where
  used : leader ∈ os.used
  own : ∀ e ∈ os.table.rows, e.pid = leader → e.pgid = leader

theorem Led.after (h : os.Led leader) (e : Event) : (os.after e).Led leader := by
  refine ⟨used_after os e h.used, fun x hx hpid => ?_⟩
  rcases mem_after hx with ⟨y, hy, hsame, -, hg⟩ | ⟨hfresh, -⟩
  · rcases hg with hg | hg
    · exact hg.trans (h.own y hy (hsame.trans hpid))
    · exact hg.trans hpid
  · exact absurd (hpid ▸ h.used) hfresh

theorem Evolves.led (h : os.Evolves os') (hled : os.Led leader) : os'.Led leader :=
  h.invariant (I := fun o => o.Led leader) (fun _ e ho => Led.after ho e) hled

/-- The group of a leader stays empty once it is. -/
theorem Evolves.groupGone (h : os.Evolves os') (hled : os.Led leader)
    (hgone : ∀ e ∈ os.table.rows, e.pgid ≠ leader) : ∀ e ∈ os'.table.rows, e.pgid ≠ leader := by
  have hboth := h.invariant
    (I := fun o => o.Led leader ∧ ∀ e ∈ o.table.rows, e.pgid ≠ leader)
    (fun o ev ho => by
      refine ⟨ho.1.after ev, fun x hx hg => ?_⟩
      rcases mem_after hx with ⟨y, hy, hpid, -, hgy⟩ | ⟨-, p, hp, hgp⟩
      · rcases hgy with hgy | hgy
        · exact ho.2 y hy (hgy.symm.trans hg)
        · -- It leads a group of its own, so it is the leader, who has always been in this one.
          have hleads : y.pid = leader := hpid.trans (hgy.symm.trans hg)
          exact ho.2 y hy (ho.1.own y hy hleads)
      · exact ho.2 p hp (hgp.symm.trans hg)) ⟨hled, hgone⟩
  exact hboth.2

/-- A member of the leader's group that was listed before was a member then. -/
theorem Evolves.member {pid : Nat} (h : os.Evolves os') (hled : os.Led leader)
    (hused : pid ∈ os.used) (hrun : os'.table.RunningIn leader pid) :
    os.table.RunningIn leader pid := by
  obtain ⟨x, hx, rfl, hg, hz⟩ := hrun
  obtain ⟨y, hy, hpid, hrunning, hgy⟩ := h.ran hx hused
  refine ⟨y, hy, hpid, ?_, hrunning hz⟩
  rcases hgy with hgy | hgy
  · exact hgy.symm.trans hg
  · exact hled.own y hy (hpid.trans (hgy.symm.trans hg))

end Os
end XioFlow.Lib
