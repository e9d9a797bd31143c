/-
  XioFlow.Store.Quiet

  Methods that are about something else than operations, leases and
  capabilities: events, runs, tasks, snapshots and recovery evidence.

  What they leave alone is said once, block by block, so that whatever rests on
  the records of the operations need not look at them again.
-/

import XioFlow.Store.Fencing

namespace XioFlow

open Lib Lib.Prog

namespace SqliteStore

/-- The records are as they were, the recovery evidence of operations apart. -/
structure Quiet (s s' : SqliteStore) : Prop where
  owners : SameOwners s s'
  operations : ∀ opId, (s'.getOperation opId).map (evidenceRow none) =
    (s.getOperation opId).map (evidenceRow none)
  resourceLeases : s'.db.resourceLeases = s.db.resourceLeases
  capabilities : s'.db.capabilities = s.db.capabilities

namespace Quiet

theorem refl (s : SqliteStore) : Quiet s s := ⟨SameOwners.refl s, fun _ => rfl, rfl, rfl⟩

theorem trans (a b c : SqliteStore) (hab : Quiet a b) (hbc : Quiet b c) : Quiet a c where
  owners := SameOwners.trans a b c hab.owners hbc.owners
  operations opId := (hbc.operations opId).trans (hab.operations opId)
  resourceLeases := hbc.resourceLeases.trans hab.resourceLeases
  capabilities := hbc.capabilities.trans hab.capabilities

/-- The other way round. -/
theorem kept {s s' : SqliteStore} (h : Quiet s s') {opId : String} {op : StoredOperation}
    (hop : s.getOperation opId = some op) :
    ∃ op', s'.getOperation opId = some op' ∧ evidenceRow none op' = evidenceRow none op := by
  have hmap := h.operations opId
  rw [hop] at hmap
  exact Option.map_eq_some_iff.1 hmap

end Quiet

theorem quiet_transaction {α : Type} {p : StoreM α} (h : Blocks Quiet p) :
    Blocks Quiet (transaction p) := h.transaction Quiet.refl Quiet.trans

theorem quiet_check (f : SqliteStore → Except KernelError Unit) : Blocks Quiet (check f) :=
  blocks_check Quiet.refl f

theorem quiet_read {α : Type} (f : SqliteStore → α) : Blocks Quiet (read f : StoreM α) :=
  blocks_read Quiet.refl f

theorem quiet_require (r : Except KernelError Unit) : Blocks Quiet (require r) := by
  unfold require
  cases r with
  | error e => exact blocks_throw e
  | ok u => exact blocks_pure ()

/-! ## Events -/

theorem quiet_recordEventAndTransitionState (e : EventInput) :
    Blocks Quiet (recordEventAndTransitionState e) :=
  blocks_recordEventAndTransitionState Quiet.refl fun _ _ _ =>
    ⟨⟨rfl, rfl⟩, fun _ => rfl, rfl, rfl⟩

theorem quiet_recordEvent (e : EventInput) : Blocks Quiet (recordEvent e) :=
  (quiet_recordEventAndTransitionState e).bind fun _ => blocks_pure ()

/-! ## Tasks, runs and snapshots -/

theorem quiet_bindRunConfigSnapshot [Crypto] (runId : String)
    (snapshot : RequestConfigSnapshot) :
    Blocks Quiet (bindRunConfigSnapshot runId snapshot) := by
  refine (quiet_require _).bind fun _ => quiet_transaction ((quiet_read _).bind fun run => ?_)
  cases run with
  | none => exact blocks_throw _
  | some run =>
    simp only
    split
    · exact quiet_require _
    · refine (quiet_check _).bind fun _ => blocks_modify fun _ => ?_
      exact ⟨⟨rfl, rfl⟩, fun _ => rfl, rfl, rfl⟩

end SqliteStore
end XioFlow
