/-
  XioFlow.Recovery.Completion

  Recovery settles everything, keeps exactly the uncertain leases, and has
  nothing left to do when it runs again.

  A call to the driver that throws leaves the loop, and with it every operation
  that comes later.  So does an operation that has a result in the journal
  already, which is what a status written after the end of an operation leaves
  behind.
-/

import XioFlow.Recovery.Settlement
import XioFlow.Domain.Rebuild

namespace XioFlow

open Lib
open Lib.Prog (read onlyIf run_bind run_read run_pure)
open ExecutionDomain
open SqliteStore

namespace Recovery

/-! ## Runs -/

/-- The loop over the runs moves open runs to an end, and does nothing else. -/
structure Converged (runs : List Run) (d d' : ExecutionDomain) : Prop where
  quiescent : Quiescent d'
  yields : Yields (fun _ => False) d d'
  operations : d'.store.db.operations = d.store.db.operations
  others : ∀ id, (∀ run ∈ runs, allDone d.store run.id = true → run.id ≠ id) →
    d'.store.getRun id = d.store.getRun id
  closed : ∀ run ∈ runs, allDone d.store run.id = true →
    ∃ run', d'.store.getRun run.id = some run' ∧ run'.status.terminal = true

/-- The run is open, and one of the domain. -/
structure OpenRun (run : Run) (d : ExecutionDomain) : Prop where
  found : d.store.getRun run.id = some run
  running : run.status = .running
  domain : run.domainId = d.domainId

variable {s : SqliteStore} {m : ServiceMap} {all : List StoredOperation}

theorem allDone_congr {s' : SqliteStore} (h : s'.db.operations = s.db.operations) (runId : String) :
    allDone s' runId = allDone s runId := by
  unfold allDone getOperationsByRun
  rw [h]

variable {d : ExecutionDomain} {serviceId : String} {d' d₀ : ExecutionDomain}

theorem setRunStatus_quiescent (h : Quiescent d) {run : Run} (hrun : OpenRun run d)
    (status : KernelRunStatus) (reason : Option TerminationReason) (now : Timestamp)
    (hterminal : status.terminal = true) :
    ∃ d', (onStore (updateRunStatus run.id status reason (some now) now)).run d =
        (d', .ok ()) ∧ Quiescent d' ∧ Yields (fun _ => False) d d' ∧
      d'.store.db.operations = d.store.db.operations ∧
      (∀ id, id ≠ run.id → d'.store.getRun id = d.store.getRun id) ∧
      ∃ run', d'.store.getRun run.id = some run' ∧ run'.status.terminal = true := by
  have hopen : run.status.terminal = false := by
    rw [hrun.running]
    rfl
  have hfenced : epochFencing run.domainId d.store = .ok () := by
    rw [hrun.domain]
    exact h.unfenced.currentEpoch
  have hnamed : run.domainId ≠ "" := by
    rw [hrun.domain]
    exact h.unfenced.named
  obtain ⟨row, -, hupdate⟩ := updateRunStatus_of_open hrun.found hopen hfenced hnamed
    status reason (some now) now
  let s := setRunStatus run.id status reason (some now) d.store
  have hget : ∀ id, s.getRun id =
      if id = run.id then (d.store.getRun id).map (runStatusRow status reason (some now))
      else d.store.getRun id :=
    fun id => getRun_setRunStatus run.id status reason (some now) d.store id
  refine ⟨{ d with store := appendEvent row s }, ?_, ?_, ?_, rfl, ?_, ?_⟩
  · rw [run_onStore, hupdate]
  · exact ⟨⟨h.unfenced.notFenced, h.unfenced.currentEpoch, h.unfenced.named⟩, h.idle, h.agree⟩
  · exact ⟨rfl, rfl, fun _ hlease => hlease, fun _ _ howner => howner, fun _ hlease _ => hlease,
      fun _ _ _ howner => howner⟩
  · intro id hid
    show s.getRun id = _
    rw [hget, if_neg hid]
  · refine ⟨runStatusRow status reason (some now) run, ?_, hterminal⟩
    show s.getRun run.id = _
    rw [hget, if_pos rfl, hrun.found]
    rfl

theorem convergeRun_quiescent (h : Quiescent d) (engine : RecoveryEngine) {run : Run}
    (hrun : OpenRun run d) :
    ∃ d', (convergeRun engine run).run d = (d', .ok ()) ∧ Converged [run] d d' := by
  unfold convergeRun
  rw [run_bind, run_read]
  show ∃ d', (onlyIf (allDone d.store run.id) _).run d = (d', .ok ()) ∧ _
  cases hdone : allDone d.store run.id with
  | false =>
    refine ⟨d, rfl, h, Yields.refl _ d, rfl, fun _ _ => rfl, ?_⟩
    intro other hother hcontra
    rw [List.mem_singleton.1 hother, hdone] at hcontra
    cases hcontra
  | true =>
    have hclose : ∀ status reason, KernelRunStatus.terminal status = true →
        ∃ d', (onStore (updateRunStatus run.id status reason
            (some engine.around.now) engine.around.now)).run d = (d', .ok ()) ∧
          Converged [run] d d' := by
      intro status reason hterminal
      obtain ⟨d', hupdate, hquiet, hyields, hoperations, hothers, hclosed⟩ :=
        setRunStatus_quiescent h hrun status reason engine.around.now hterminal
      refine ⟨d', hupdate, hquiet, hyields, hoperations, fun id hid => ?_, fun other hother _ => ?_⟩
      · apply hothers
        intro heq
        exact hid run (List.mem_singleton.2 rfl) hdone heq.symm
      · rw [List.mem_singleton.1 hother]
        exact hclosed
    unfold onlyIf
    rw [if_pos rfl]
    cases hasIndeterminate d.store run.id with
    | true => exact hclose .indeterminate none rfl
    | false => exact hclose .failed (some .crashDetected) rfl

theorem convergeRuns_quiescent (h : Quiescent d) (engine : RecoveryEngine) {runs : List Run}
    (hdistinct : (runs.map Run.id).Nodup) (hruns : ∀ run ∈ runs, OpenRun run d) :
    ∃ d', (convergeRuns engine runs).run d = (d', .ok ()) ∧ Converged runs d d' := by
  induction runs generalizing d with
  | nil =>
    exact ⟨d, rfl, h, Yields.refl _ d, rfl, fun _ _ => rfl,
      fun run hrun => absurd hrun List.not_mem_nil⟩
  | cons run runs ih =>
    rw [List.map_cons, List.nodup_cons] at hdistinct
    have hnew : ∀ other ∈ runs, other.id ≠ run.id := by
      intro other hmem heq
      apply hdistinct.1
      rw [← heq]
      exact List.mem_map_of_mem (f := Run.id) hmem
    rw [List.forall_mem_cons] at hruns
    obtain ⟨d₁, hrun₁, hfirst⟩ := convergeRun_quiescent h engine hruns.1
    have hsame : ∀ id, allDone d₁.store id = allDone d.store id :=
      fun id => allDone_congr hfirst.operations id
    have hstill : ∀ other ∈ runs, OpenRun other d₁ := by
      intro other hmem
      refine ⟨?_, (hruns.2 other hmem).running, ?_⟩
      · rw [hfirst.others other.id]
        · exact (hruns.2 other hmem).found
        · intro this hthis _ heq
          rw [List.mem_singleton.1 hthis] at heq
          exact hnew other hmem heq.symm
      · rw [hfirst.yields.domainId]
        exact (hruns.2 other hmem).domain
    obtain ⟨d', hrest, hothers⟩ := ih hfirst.quiescent hdistinct.2 hstill
    refine ⟨d', ?_, hothers.quiescent, hfirst.yields.trans hothers.yields,
      hothers.operations.trans hfirst.operations, fun id hid => ?_, ?_⟩
    · rw [convergeRuns]
      simp only [run_bind, hrun₁, hrest]
    · rw [List.forall_mem_cons] at hid
      rw [hothers.others id, hfirst.others id]
      · intro this hthis
        rw [List.mem_singleton.1 hthis]
        exact hid.1
      · intro other hmem hdone
        rw [hsame] at hdone
        exact hid.2 other hmem hdone
    · rw [List.forall_mem_cons]
      refine ⟨fun hdone => ?_, fun other hmem hdone => ?_⟩
      · obtain ⟨run', hrun', hterminal⟩ :=
          hfirst.closed run (List.mem_singleton.2 rfl) hdone
        refine ⟨run', ?_, hterminal⟩
        rw [hothers.others run.id fun other hmem _ => hnew other hmem]
        exact hrun'
      · apply hothers.closed other hmem
        rw [hsame]
        exact hdone

/-- Where every run has something left to do, the loop changes nothing. -/
theorem convergeRuns_idle (engine : RecoveryEngine) {runs : List Run}
    (h : ∀ run ∈ runs, allDone d.store run.id = false) :
    (convergeRuns engine runs).run d = (d, .ok ()) := by
  induction runs with
  | nil => rfl
  | cons run runs ih =>
    rw [List.forall_mem_cons] at h
    have hfirst : (convergeRun engine run).run d = (d, .ok ()) := by
      unfold convergeRun
      rw [run_bind, run_read]
      show (onlyIf (allDone d.store run.id) _).run d = _
      rw [h.1]
      rfl
    rw [convergeRuns]
    simp only [run_bind, hfirst, ih h.2]

/-! ## Services -/

theorem ServiceMap.get?_set (m : ServiceMap) (serviceId : String) (entry : ServiceEntry)
    (serviceId' : String) :
    (m.set serviceId entry).get? serviceId' =
      if serviceId' = serviceId then some entry else m.get? serviceId' := by
  induction m with
  | nil =>
    unfold set get?
    by_cases heq : serviceId' = serviceId
    · simp [heq]
    · simp [heq, Ne.symm heq]
  | cons e m ih =>
    have hcons : ∀ (e : String × ServiceEntry) (m : ServiceMap), get? (e :: m) serviceId' =
        if e.1 = serviceId' then some e.2 else get? m serviceId' := by
      intro e m
      unfold get?
      rw [List.find?_cons]
      by_cases hthis : e.1 = serviceId'
      · simp [hthis]
      · simp [hthis]
    rw [set]
    by_cases hhere : e.1 = serviceId
    · rw [if_pos hhere, hcons, hcons, hhere]
      by_cases heq : serviceId' = serviceId
      · rw [if_pos heq.symm, if_pos heq]
      · rw [if_neg fun h => heq h.symm, if_neg heq, if_neg fun h => heq h.symm]
    · rw [if_neg hhere, hcons, hcons, ih]
      by_cases heq : serviceId' = serviceId
      · rw [if_neg fun h => hhere (h.trans heq), if_pos heq, if_pos heq]
      · rw [if_neg heq, if_neg heq]

/-- The resources of the service must not be given back. -/
def Blocked (m : ServiceMap) (serviceId : String) : Prop :=
  (m.get? serviceId).map ServiceEntry.resourcesReleased = some false

theorem blocked_set (m : ServiceMap) (serviceId : String) (entry : ServiceEntry)
    (serviceId' : String) :
    Blocked (m.set serviceId entry) serviceId' ↔
      if serviceId' = serviceId then entry.resourcesReleased = false
      else Blocked m serviceId' := by
  unfold Blocked
  rw [ServiceMap.get?_set]
  split
  · simp
  · exact Iff.rfl

/-- The entry of an operation that was not released blocks its service, and nothing else does. -/
theorem blocked_of_countRecovered {unfinished : List StoredOperation} {entry : RecoveredOperation}
    (h : Blocked (countRecovered unfinished m entry) serviceId) :
    Blocked m serviceId ∨ (entry.resourcesReleased = false ∧ ∃ op ∈ unfinished,
      op.id = entry.opId ∧ op.kind = .service ∧ serviceIdOf op = serviceId) := by
  unfold countRecovered at h
  cases hfind : unfinished.find? fun op => op.id = entry.opId with
  | none =>
    rw [hfind] at h
    exact .inl h
  | some op =>
    have hid : op.id = entry.opId := by simpa using List.find?_some hfind
    rw [hfind] at h
    simp only at h
    split at h
    · rename_i hservice
      rw [blocked_set] at h
      split at h
      · rename_i heq
        rw [Bool.and_eq_false_iff] at h
        rcases h with hbefore | hentry
        · left
          unfold Blocked
          rw [heq]
          cases hget : m.get? (serviceIdOf op) with
          | none =>
            rw [hget] at hbefore
            cases hbefore
          | some =>
            rw [hget] at hbefore
            exact congrArg some hbefore
        · exact .inr ⟨hentry, op, List.mem_of_find?_eq_some hfind, hid, hservice, heq.symm⟩
      · exact .inl h
    · exact .inl h

theorem blocked_of_foldl_countRecovered {unfinished : List StoredOperation}
    {recovered : List RecoveredOperation}
    (h : Blocked (recovered.foldl (countRecovered unfinished) m) serviceId) :
    Blocked m serviceId ∨ ∃ entry ∈ recovered, entry.resourcesReleased = false ∧
      ∃ op ∈ unfinished, op.id = entry.opId ∧ op.kind = .service ∧ serviceIdOf op = serviceId := by
  induction recovered generalizing m with
  | nil => exact .inl h
  | cons entry recovered ih =>
    rcases ih h with hfirst | ⟨other, hmem, hother⟩
    · rcases blocked_of_countRecovered hfirst with hbefore | hentry
      · exact .inl hbefore
      · exact .inr ⟨entry, List.mem_cons_self, hentry⟩
    · exact .inr ⟨other, List.mem_cons_of_mem _ hmem, hother⟩

theorem blocked_countUnsettled_iff {serviceId' : String} :
    Blocked (countUnsettled all s m serviceId) serviceId' ↔
      Blocked m serviceId' ∨
        (serviceId' = serviceId ∧ unsettledInstances all s serviceId' ≠ []) := by
  unfold countUnsettled
  simp only
  split
  · rename_i hnone
    constructor
    · exact .inl
    · rintro (h | ⟨rfl, hsome⟩)
      · exact h
      · exact absurd hnone hsome
  · rename_i hsome
    rw [blocked_set]
    split
    · rename_i heq
      subst heq
      exact ⟨fun _ => .inr ⟨rfl, hsome⟩, fun _ => rfl⟩
    · rename_i hne
      exact ⟨.inl, fun h => h.resolve_right fun hthis => hne hthis.1⟩

theorem blocked_foldl_countUnsettled_iff {services : List String} :
    Blocked (services.foldl (countUnsettled all s) m) serviceId ↔
      Blocked m serviceId ∨
        (serviceId ∈ services ∧ unsettledInstances all s serviceId ≠ []) := by
  induction services generalizing m with
  | nil => simp
  | cons service services ih =>
    rw [List.foldl_cons, ih, blocked_countUnsettled_iff, List.mem_cons, or_assoc]
    refine or_congr_right ?_
    rw [← or_and_right]

theorem mem_unsettledInstances {id : String} :
    id ∈ unsettledInstances all s serviceId ↔
      (∃ op ∈ all, op.id = id ∧ op.kind = .service ∧ serviceIdOf op = serviceId) ∧
        ∃ op, s.getOperation id = some op ∧ unsettled op = true := by
  unfold unsettledInstances serviceInstances
  rw [List.mem_filter, List.mem_map, Option.any_eq_true]
  refine and_congr ?_ Iff.rfl
  constructor
  · rintro ⟨op, hop, hid⟩
    rw [List.mem_filter, Bool.and_eq_true, decide_eq_true_eq, decide_eq_true_eq] at hop
    exact ⟨op, hop.1, hid, hop.2.1, hop.2.2⟩
  · rintro ⟨op, hop, hid, hkind, hservice⟩
    refine ⟨op, ?_, hid⟩
    rw [List.mem_filter, Bool.and_eq_true, decide_eq_true_eq, decide_eq_true_eq]
    exact ⟨hop, hkind, hservice⟩

theorem mem_serviceIds :
    serviceId ∈ serviceIds all ↔
      ∃ op ∈ all, op.kind = .service ∧ serviceIdOf op = serviceId := by
  unfold serviceIds
  rw [List.mem_eraseDups, List.mem_map]
  constructor
  · rintro ⟨op, hop, hservice⟩
    obtain ⟨hmem, hkind⟩ := List.mem_filter.1 hop
    exact ⟨op, hmem, of_decide_eq_true hkind, hservice⟩
  · rintro ⟨op, hmem, hkind, hservice⟩
    exact ⟨op, List.mem_filter.2 ⟨hmem, decide_eq_true hkind⟩, hservice⟩

/-- An instance that waits for an adjudication blocks its service. -/
theorem blocked_serviceMap {unfinished : List StoredOperation}
    {recovered : List RecoveredOperation} (h : unsettledInstances all s serviceId ≠ []) :
    Blocked (serviceMap all unfinished recovered s) serviceId := by
  obtain ⟨id, hid⟩ := List.exists_mem_of_ne_nil _ h
  obtain ⟨⟨op, hop, -, hkind, hservice⟩, -⟩ := mem_unsettledInstances.1 hid
  unfold serviceMap
  rw [blocked_foldl_countUnsettled_iff]
  exact .inr ⟨mem_serviceIds.2 ⟨op, hop, hkind, hservice⟩, h⟩

theorem heldService_some {operationId : String} (h : heldService operationId = some serviceId) :
    ServiceNamed operationId := by
  unfold heldService at h
  split at h
  · assumption
  · cases h

theorem clearedBackoffEvent_envelope {domainId : String} (hnamed : domainId ≠ "")
    (serviceId : String) (now : Timestamp) :
    ∃ envelope, (clearedBackoffEvent domainId serviceId now).envelope = .ok envelope := by
  have hplain : JsValue.plainEntries [("serviceId", .str serviceId),
      ("reason", .str "recovered_after_crash"), ("action", .str "cleared_backoff_lease")] =
        true := rfl
  have hschema : validSchemaVersion "xio/event/1.0" = true := by decide
  have hname : validEventName "SERVICE_STOPPED" = true := by decide
  exact createEventEnvelope_of_plain hnamed hschema hname rfl hplain

/-- The lease of a service that nothing blocks. -/
def Clearable (m : ServiceMap) (lease : ResourceLease) : Prop :=
  ∃ serviceId, heldService lease.operationId = some serviceId ∧ ¬ Blocked m serviceId

/-- What the loop over the leases does. -/
structure Cleared (leases : List ResourceLease) (m : ServiceMap) (d d' : ExecutionDomain) :
    Prop where
  quiescent : Quiescent d'
  yields : Yields ServiceNamed d d'
  history : SameHistory d d'
  cleared : ∀ lease ∈ leases, Clearable m lease →
    lease ∉ d'.store.getPersistedResourceLeases d'.domainId

theorem Cleared.cons {lease : ResourceLease} {leases : List ResourceLease} {m' : ServiceMap}
    {d₁ : ExecutionDomain} (hblocked : ∀ serviceId, Blocked m' serviceId ↔ Blocked m serviceId)
    (hyields : Yields ServiceNamed d d₁) (hhistory : SameHistory d d₁)
    (hgone : Clearable m lease → lease ∉ d₁.store.getPersistedResourceLeases d₁.domainId)
    (h : Cleared leases m' d₁ d') : Cleared (lease :: leases) m d d' := by
  refine ⟨h.quiescent, hyields.trans h.yields, hhistory.trans h.history, ?_⟩
  rw [List.forall_mem_cons]
  refine ⟨fun hclear hmem => hgone hclear ?_, fun other hother hclear => ?_⟩
  · obtain ⟨hrow, hdomain⟩ := Table.mem_select.1 hmem
    apply Table.mem_select.2
    rw [h.yields.domainId] at hdomain
    exact ⟨h.yields.leases lease hrow, hdomain⟩
  · obtain ⟨serviceId, hheld, hfree⟩ := hclear
    exact h.cleared other hother ⟨serviceId, hheld, fun hthis => hfree ((hblocked _).1 hthis)⟩

theorem clearBackoffLeases_quiescent (h : Quiescent d) (engine : RecoveryEngine)
    (leases : List ResourceLease) (m : ServiceMap) :
    ∃ d' m', (clearBackoffLeases engine leases m).run d = (d', .ok m') ∧
      Cleared leases m d d' := by
  induction leases generalizing d m with
  | nil =>
    exact ⟨d, m, rfl, h, Yields.refl _ d, SameHistory.refl d,
      fun lease hlease => absurd hlease List.not_mem_nil⟩
  | cons lease leases ih =>
    rw [clearBackoffLeases]
    cases hheld : heldService lease.operationId with
    | none =>
      obtain ⟨d', m', hrun, hrest⟩ := ih h m
      refine ⟨d', m', hrun, Cleared.cons (fun _ => Iff.rfl) (Yields.refl _ d)
        (SameHistory.refl d) ?_ hrest⟩
      rintro ⟨serviceId, hsome, -⟩
      rw [hheld] at hsome
      cases hsome
    | some serviceId =>
      -- The lease itself goes with the first release of its holder.
      obtain ⟨d₁, hrelease, hreleased⟩ :=
        release_quiescent h engine lease.operationId [lease.resourceId]
      have hyields : Yields ServiceNamed d d₁ := by
        apply hreleased.yields.mono
        intro x hx
        rw [hx]
        exact heldService_some hheld
      have hgone : lease ∉ d₁.store.getPersistedResourceLeases d₁.domainId :=
        fun hmem => hreleased.leases lease hmem rfl (.inr (List.mem_singleton.2 rfl))
      cases hentry : (m.get? serviceId).map ServiceEntry.resourcesReleased with
      | none =>
        obtain ⟨d₂, hevent, hquiet₂, hyields₂, hhistory₂⟩ := event_quiescent
          hreleased.quiescent
          (e := clearedBackoffEvent d₁.domainId serviceId engine.around.now) rfl
          (by
            show "SERVICE_STOPPED" ≠ _ ∧ "SERVICE_STOPPED" ≠ _
            decide)
          (by
            intro opId hsubject
            cases hsubject)
          (clearedBackoffEvent_envelope hreleased.quiescent.unfenced.named _ _)
        obtain ⟨d', m', hrun, hrest⟩ :=
          ih hquiet₂ (m.set serviceId ⟨[], [.stoppedAliveProcess], true⟩)
        refine ⟨d', m', ?_, Cleared.cons ?_
          (hyields.trans (hyields₂.mono fun x hx => hx.elim))
          (hreleased.history.trans hhistory₂) (fun _ hmem => hgone ?_) hrest⟩
        · simp only [hentry, run_bind, hrelease, run_read, id, hevent]
          exact hrun
        · intro serviceId'
          rw [blocked_set]
          split
          · rename_i heq
            unfold Blocked
            rw [heq, hentry]
            simp
          · exact Iff.rfl
        · obtain ⟨hrow, hdomain⟩ := Table.mem_select.1 hmem
          apply Table.mem_select.2
          rw [hyields₂.domainId] at hdomain
          exact ⟨hyields₂.leases lease hrow, hdomain⟩
      | some released =>
        cases released with
        | false =>
          obtain ⟨d', m', hrun, hrest⟩ := ih h m
          refine ⟨d', m', ?_, Cleared.cons (fun _ => Iff.rfl) (Yields.refl _ d)
            (SameHistory.refl d) ?_ hrest⟩
          · simp only [hentry]
            exact hrun
          · rintro ⟨serviceId', hsome, hfree⟩
            rw [hheld, Option.some.injEq] at hsome
            rw [← hsome] at hfree
            exact absurd hentry hfree
        | true =>
          obtain ⟨d', m', hrun, hrest⟩ := ih hreleased.quiescent m
          refine ⟨d', m', ?_, Cleared.cons (fun _ => Iff.rfl) hyields hreleased.history
            (fun _ => hgone) hrest⟩
          simp only [hentry, run_bind, hrelease]
          exact hrun

/-- Where every service with a lease is blocked, the loop changes nothing. -/
theorem clearBackoffLeases_idle (engine : RecoveryEngine) {leases : List ResourceLease}
    (h : ∀ lease ∈ leases, ¬ Clearable m lease) :
    (clearBackoffLeases engine leases m).run d = (d, .ok m) := by
  induction leases with
  | nil => rfl
  | cons lease leases ih =>
    rw [List.forall_mem_cons] at h
    rw [clearBackoffLeases]
    cases hheld : heldService lease.operationId with
    | none => exact ih h.2
    | some serviceId =>
      have hblocked : Blocked m serviceId := by
        by_contra hfree
        exact h.1 ⟨serviceId, hheld, hfree⟩
      unfold Blocked at hblocked
      simp only [hblocked]
      exact ih h.2

/-! ## What is said of a recovery -/

/-- The operation has every lease it had, in the store and in memory. -/
structure KeepsLeases (opId : String) (d d' : ExecutionDomain) : Prop where
  leases : ∀ lease ∈ d.store.db.resourceLeases.rows, lease.operationId = opId →
    lease ∈ d'.store.db.resourceLeases.rows
  locks : ∀ r, d.getResourceOwner r = some opId → d'.getResourceOwner r = some opId

/-- The leases of an operation that was unfinished before follow its result. -/
structure SettledLeases (op : StoredOperation) (d d' : ExecutionDomain) : Prop where
  stored : ∃ op' result, d'.store.getOperation op.id = some op' ∧ op'.status = .done ∧
    op'.result = some result ∧
    (result.status = .indeterminate → KeepsLeases op.id d d') ∧
    (result.status ≠ .indeterminate → HoldsNothing op.id d')

/-- Nothing of the domain is unfinished, exactly the uncertain leases are kept, no run with all
    operations done is still running, and another recovery changes nothing. -/
structure Settled [Crypto] (d d' : ExecutionDomain) : Prop where
  operations : d'.store.getUnfinishedOperations d'.domainId = []
  leases : ∀ op ∈ d.store.getUnfinishedOperations d.domainId, SettledLeases op d d'
  runs : ∀ run ∈ d'.store.getActiveRuns d'.domainId,
    ∃ op ∈ d'.store.getOperationsByRun run.id, op.status ≠ .done
  again : ∀ engine : RecoveryEngine, ∃ report, (recover engine).run d' = (d', .ok report)

/-- Recovery completes, and has settled everything. -/
def Recovers [Crypto] (engine : RecoveryEngine) (d : ExecutionDomain) : Prop :=
  ∃ d' report, (recover engine).run d = (d', .ok report) ∧ Settled d d'

/-- A domain whose isolation was rebuilt from a store in which no resource is claimed twice, where
    an operation has leases on the resources it requires, and where no unfinished operation has
    the id of a service holder. -/
structure Reopened (d₀ d : ExecutionDomain) : Prop where
  acquired : Unfenced d₀
  idle : d₀.waitQueue = []
  rebuilt : d₀.rebuildIsolationFromStore = .ok d
  uncontested : Uncontested d₀
  required : ∀ op ∈ d₀.store.getUnfinishedOperations d₀.domainId,
    ∀ lease ∈ d₀.store.getPersistedResourceLeases d₀.domainId, lease.operationId = op.id →
      lease.resourceId ∈ op.requiredResources
  ordinary : ∀ op ∈ d₀.store.getUnfinishedOperations d₀.domainId, ¬ ServiceNamed op.id

theorem Reopened.quiescent (h : Reopened d₀ d) : Quiescent d := by
  have hrebuilt := rebuildIsolationFromStore_ok h.rebuilt
  refine ⟨⟨?_, ?_, ?_⟩, ?_, fun lease hlease => ?_⟩
  · exact hrebuilt.same.isFenced.trans h.acquired.notFenced
  · rw [hrebuilt.same.domainId, hrebuilt.same.store]
    exact h.acquired.currentEpoch
  · rw [hrebuilt.same.domainId]
    exact h.acquired.named
  · exact hrebuilt.same.waitQueue.trans h.idle
  · rw [hrebuilt.same.domainId, hrebuilt.same.store] at hlease
    exact ⟨(h.uncontested.leases lease hlease).1, hrebuilt.leases h.uncontested lease hlease⟩

theorem mem_unfinished {domainId : String} {op : StoredOperation} :
    op ∈ s.getUnfinishedOperations domainId ↔
      s.getOperation op.id = some op ∧ op.domainId = domainId ∧ op.status.unfinished = true := by
  unfold getUnfinishedOperations getOperation
  rw [Table.mem_select, Bool.and_eq_true, decide_eq_true_eq, Table.get?_eq_some_iff]
  constructor
  · rintro ⟨hrow, hdomain, hstatus⟩
    exact ⟨⟨hrow, rfl⟩, hdomain, hstatus⟩
  · rintro ⟨⟨hrow, -⟩, hdomain, hstatus⟩
    exact ⟨hrow, hdomain, hstatus⟩

theorem unfinished_distinct (s : SqliteStore) (domainId : String) :
    ((s.getUnfinishedOperations domainId).map fun op => op.id).Nodup :=
  s.db.operations.nodup.sublist (List.filter_sublist.map _)

theorem Reopened.unfinished (h : Reopened d₀ d) :
    ∀ op ∈ d.store.getUnfinishedOperations d.domainId, Unfinished op d := by
  have hrebuilt := rebuildIsolationFromStore_ok h.rebuilt
  intro op hop
  obtain ⟨hfound, hdomain, hstatus⟩ := mem_unfinished.1 hop
  have hold : op ∈ d₀.store.getUnfinishedOperations d₀.domainId := by
    rw [hrebuilt.same.domainId, hrebuilt.same.store] at hop
    exact hop
  refine ⟨hfound, hdomain, ?_, fun r howner => .inr ?_, h.ordinary op hold⟩
  · intro hdone
    rw [hdone] at hstatus
    cases hstatus
  · rcases hrebuilt.origin r op.id howner with
      ⟨lease, hlease, hr, hholder⟩ | ⟨other, hother, hr, hid⟩ | hfresh
    · rw [← hr]
      exact h.required op hold lease hlease hholder
    · have hsame : other = op := by
        have hthis := (mem_unfinished.1 hother).1
        rw [hid, (mem_unfinished.1 hold).1] at hthis
        exact (Option.some.inj hthis).symm
      rw [← hsame]
      exact hr
    · have hnone : d₀.store.getOperation op.id = none := hfresh
      rw [(mem_unfinished.1 hold).1] at hnone
      cases hnone

/-! ## The whole recovery -/

theorem openRuns (d : ExecutionDomain) :
    ∀ run ∈ d.store.getActiveRuns d.domainId, OpenRun run d := by
  intro run hrun
  obtain ⟨hrow, hactive⟩ := Table.mem_select.1 hrun
  rw [Bool.and_eq_true, decide_eq_true_eq, decide_eq_true_eq] at hactive
  exact ⟨Table.get?_of_mem hrow, hactive.2, hactive.1⟩

theorem activeRuns_distinct (d : ExecutionDomain) :
    ((d.store.getActiveRuns d.domainId).map Run.id).Nodup :=
  d.store.db.runs.nodup.sublist (List.filter_sublist.map _)

/-- After the loop over the runs none is running with nothing to do. -/
theorem Converged.runs (h : Converged (d.store.getActiveRuns d.domainId) d d') :
    ∀ run ∈ d'.store.getActiveRuns d'.domainId, allDone d'.store run.id = false := by
  intro run hrun
  obtain ⟨hfound, hrunning, hdomain⟩ := openRuns d' run hrun
  by_contra hdone
  rw [Bool.not_eq_false, allDone_congr h.operations] at hdone
  -- It was active before: only runs with nothing to do have changed.
  have hactive : run ∈ d.store.getActiveRuns d.domainId := by
    by_contra hnot
    have hsame := h.others run.id fun other hother _ heq => ?_
    · rw [hfound] at hsame
      apply hnot
      apply Table.mem_select.2
      refine ⟨(Table.get?_eq_some_iff.1 hsame.symm).1, ?_⟩
      rw [hrunning, ← h.yields.domainId, hdomain]
      simp
    · obtain ⟨run', hrun', hterminal⟩ := h.closed other hother (heq ▸ hdone)
      rw [heq, hfound, Option.some.injEq] at hrun'
      rw [← hrun', hrunning] at hterminal
      cases hterminal
  obtain ⟨run', hrun', hterminal⟩ := h.closed run hactive hdone
  rw [hfound, Option.some.injEq] at hrun'
  rw [← hrun', hrunning] at hterminal
  cases hterminal

theorem serviceIdOf_congr {op op' : StoredOperation} (h : op'.id = op.id) :
    serviceIdOf op' = serviceIdOf op := by
  unfold serviceIdOf
  rw [h]

section Recover

variable [Crypto] {engine : RecoveryEngine} {d d' : ExecutionDomain}

variable {recovered : List RecoveredOperation}

/-- Settling keeps the operations of the domain, with their kinds. -/
theorem SettledAll.kept {ops : List StoredOperation} (h : SettledAll engine ops recovered d d')
    (hops : ∀ op ∈ ops, Unfinished op d) {op : StoredOperation}
    (hop : d.store.getOperation op.id = some op) :
    ∃ op', d'.store.getOperation op.id = some op' ∧ op'.id = op.id ∧ op'.kind = op.kind ∧
      op'.domainId = op.domainId := by
  by_cases hmem : ∃ other ∈ ops, other.id = op.id
  · obtain ⟨other, hother, hid⟩ := hmem
    have hsame : other = op := by
      have hthis := (hops other hother).found
      rw [hid, hop] at hthis
      exact (Option.some.inj hthis).symm
    obtain ⟨verdict, -, hstored, -⟩ := h.settled other hother
    rw [hsame] at hstored
    exact ⟨_, hstored, rfl, rfl, rfl⟩
  · refine ⟨op, ?_, rfl, rfl, rfl⟩
    rw [h.others op.id fun other hother hid => hmem ⟨other, hother, hid⟩]
    exact hop

/-- Nothing is unfinished once everything that was is settled. -/
theorem SettledAll.finished
    (h : SettledAll engine (d.store.getUnfinishedOperations d.domainId) recovered d d') :
    d'.store.getUnfinishedOperations d'.domainId = [] := by
  rw [List.eq_nil_iff_forall_not_mem]
  intro op hop
  obtain ⟨hfound, hdomain, hstatus⟩ := mem_unfinished.1 hop
  by_cases hmem : ∃ other ∈ d.store.getUnfinishedOperations d.domainId, other.id = op.id
  · obtain ⟨other, hother, hid⟩ := hmem
    obtain ⟨verdict, -, hstored, -⟩ := h.settled other hother
    rw [hid, hfound, Option.some.injEq] at hstored
    rw [hstored] at hstatus
    cases hstatus
  · rw [h.others op.id fun other hother hid => hmem ⟨other, hother, hid⟩] at hfound
    rw [h.yields.domainId] at hdomain
    exact hmem ⟨op, mem_unfinished.2 ⟨hfound, hdomain, hstatus⟩, rfl⟩

/-- A service that stays blocked has an instance that waits for an adjudication. -/
theorem SettledAll.unsettled_of_blocked {s : SqliteStore} {serviceId : String}
    (h : SettledAll engine (d.store.getUnfinishedOperations d.domainId) recovered d d')
    (hsame : ∀ id, s.getOperation id = d'.store.getOperation id)
    (hblocked : Blocked (serviceMap (d.store.getAllOperations d.domainId)
      (d.store.getUnfinishedOperations d.domainId) recovered s) serviceId) :
    unsettledInstances (d.store.getAllOperations d.domainId) s serviceId ≠ [] := by
  unfold serviceMap at hblocked
  rw [blocked_foldl_countUnsettled_iff] at hblocked
  rcases hblocked with hrecovered | hunsettled
  · rcases blocked_of_foldl_countRecovered hrecovered with
      hempty | ⟨entry, hentry, hkept, op, hop, hid, hkind, hservice⟩
    · cases hempty
    · obtain ⟨other, hother, hid', verdict, hjudge, hreleased⟩ := h.report entry hentry hkept
      have hthis : other = op := by
        have hfound := (mem_unfinished.1 hother).1
        rw [hid', ← hid, (mem_unfinished.1 hop).1] at hfound
        exact (Option.some.inj hfound).symm
      obtain ⟨verdict', hjudge', hstored, -⟩ := h.settled other hother
      rw [hjudge, Except.ok.injEq] at hjudge'
      rw [hthis, ← hjudge', ← hsame] at hstored
      apply List.ne_nil_of_mem (a := op.id)
      apply mem_unsettledInstances.2
      refine ⟨⟨op, ?_, rfl, hkind, hservice⟩, _, hstored, ?_⟩
      · obtain ⟨hrow, hdomain, -⟩ := mem_unfinished.1 hop
        apply Table.mem_select.2
        exact ⟨(Table.get?_eq_some_iff.1 hrow).1, decide_eq_true hdomain⟩
      · unfold unsettled finishedRow
        rw [Bool.or_eq_true, Option.any_some, Bool.and_eq_true, decide_eq_true_eq,
          (verdict.status_eq_indeterminate_iff _).2 hreleased,
          verdict.adjudication_eq_none _ hreleased]
        exact .inr ⟨rfl, rfl⟩
  · exact hunsettled.2

/-- The parts of a recovery whose loop has come to its end. -/
theorem recover_completes {d₁ : ExecutionDomain}
    (hrun : (recoverOperations engine (d.store.getAllOperations d.domainId)
      (d.store.getUnfinishedOperations d.domainId)).run d = (d₁, .ok recovered))
    (hquiet : Quiescent d₁) :
    ∃ d₂ d₃ report, (recover engine).run d = (d₃, .ok report) ∧
      Converged (d₁.store.getActiveRuns d₁.domainId) d₁ d₂ ∧
      Cleared (d₂.store.getPersistedResourceLeases d.domainId)
        (serviceMap (d.store.getAllOperations d.domainId)
          (d.store.getUnfinishedOperations d.domainId) recovered d₂.store) d₂ d₃ := by
  obtain ⟨d₂, hruns, hconverged⟩ :=
    convergeRuns_quiescent hquiet engine (activeRuns_distinct d₁) (openRuns d₁)
  obtain ⟨d₃, services, hleases, hcleared⟩ := clearBackoffLeases_quiescent hconverged.quiescent
    engine (d₂.store.getPersistedResourceLeases d.domainId)
    (serviceMap (d.store.getAllOperations d.domainId)
      (d.store.getUnfinishedOperations d.domainId) recovered d₂.store)
  refine ⟨d₂, d₃, ⟨recovered, services.map summarize⟩, ?_, hconverged, hcleared⟩
  unfold recover
  simp only [run_bind, run_read, id, hrun, hruns, hleases]
  rfl

/-- A recovery that finds nothing to do changes nothing. -/
theorem recover_idle (hunfinished : d.store.getUnfinishedOperations d.domainId = [])
    (hruns : ∀ run ∈ d.store.getActiveRuns d.domainId, allDone d.store run.id = false)
    (hleases : ∀ lease ∈ d.store.getPersistedResourceLeases d.domainId,
      ¬ Clearable (serviceMap (d.store.getAllOperations d.domainId) [] [] d.store) lease) :
    ∃ report, (recover engine).run d = (d, .ok report) := by
  refine ⟨⟨[], (serviceMap (d.store.getAllOperations d.domainId) [] [] d.store).map summarize⟩, ?_⟩
  have hloop : (recoverOperations engine (d.store.getAllOperations d.domainId) []).run d =
      (d, .ok []) := rfl
  unfold recover
  simp only [run_bind, run_read, id, hunfinished, hloop, convergeRuns_idle engine hruns,
    clearBackoffLeases_idle engine hleases]
  rfl

/-- What a completed recovery leaves. -/
theorem settled_of_loop {d₁ d₂ d₃ : ExecutionDomain}
    (hops : ∀ op ∈ d.store.getUnfinishedOperations d.domainId, Unfinished op d)
    (hloop : SettledAll engine (d.store.getUnfinishedOperations d.domainId) recovered d d₁)
    (hconverged : Converged (d₁.store.getActiveRuns d₁.domainId) d₁ d₂)
    (hcleared : Cleared (d₂.store.getPersistedResourceLeases d.domainId)
      (serviceMap (d.store.getAllOperations d.domainId)
        (d.store.getUnfinishedOperations d.domainId) recovered d₂.store) d₂ d₃) : Settled d d₃ := by
  have hyields : Yields (SettlingAll engine (d.store.getUnfinishedOperations d.domainId) d.store)
      d d₃ := by
    apply (hloop.yields.trans (hconverged.yields.mono fun x hx => hx.elim)).trans
    exact hcleared.yields.mono fun x hx => .inl hx
  have hoperations : d₃.store.db.operations = d₁.store.db.operations :=
    hcleared.history.operations.trans hconverged.operations
  have hget : ∀ id, d₃.store.getOperation id = d₁.store.getOperation id := by
    intro id
    unfold getOperation
    rw [hoperations]
  have hdomain : d₃.domainId = d₁.domainId :=
    hcleared.yields.domainId.trans hconverged.yields.domainId
  have hfinished : d₃.store.getUnfinishedOperations d₃.domainId = [] := by
    rw [← hloop.finished, hdomain]
    unfold getUnfinishedOperations
    rw [hoperations]
  have hruns : ∀ run ∈ d₃.store.getActiveRuns d₃.domainId, allDone d₃.store run.id = false := by
    intro run hrun
    rw [allDone_congr hcleared.history.operations]
    apply hconverged.runs
    unfold getActiveRuns at hrun ⊢
    rw [hcleared.history.runs, hcleared.yields.domainId] at hrun
    exact hrun
  refine ⟨hfinished, fun op hop => ?_, fun run hrun => ?_, fun engine' => ?_⟩
  · obtain ⟨verdict, hjudge, hstored, hnothing⟩ := hloop.settled op hop
    refine ⟨_, verdict.result (engine.clock op.id), (hget op.id).trans hstored, rfl, rfl,
      fun hstatus => ?_, fun hstatus => ?_⟩
    · -- Nobody else has its id, and it is no service.
      have hkept : ¬ SettlingAll engine (d.store.getUnfinishedOperations d.domainId) d.store
          op.id := by
        rintro (hservice | ⟨other, hother, hid, verdict', hjudge', hreleased⟩)
        · exact (hops op hop).ordinary hservice
        · have hsame : other = op := by
            have hfound := (hops other hother).found
            rw [← hid, (hops op hop).found] at hfound
            exact (Option.some.inj hfound).symm
          rw [hsame, hjudge, Except.ok.injEq] at hjudge'
          rw [← hjudge', (verdict.status_eq_indeterminate_iff _).1 hstatus] at hreleased
          cases hreleased
      refine ⟨fun lease hlease hholder => ?_, fun r howner => hyields.keptLocks r _ hkept howner⟩
      apply hyields.keptLeases lease hlease
      rw [hholder]
      exact hkept
    · have hreleased : verdict.released = true := by
        rw [← Bool.not_eq_false]
        exact fun hkept => hstatus ((verdict.status_eq_indeterminate_iff _).2 hkept)
      have hafter := (hnothing hreleased).yields hconverged.yields
      exact hafter.yields hcleared.yields
  · have hdone := hruns run hrun
    unfold allDone at hdone
    rw [List.all_eq_false] at hdone
    obtain ⟨op, hop, hnot⟩ := hdone
    exact ⟨op, hop, fun hstatus => hnot (decide_eq_true hstatus)⟩
  · apply recover_idle hfinished hruns
    rintro lease hlease ⟨serviceId, hheld, hfree⟩
    apply hfree
    apply blocked_serviceMap
    -- The lease outlived the first recovery, so its service was blocked then.
    have hblocked : Blocked (serviceMap (d.store.getAllOperations d.domainId)
        (d.store.getUnfinishedOperations d.domainId) recovered d₂.store) serviceId := by
      by_contra hthen
      obtain ⟨hrow, hthis⟩ := Table.mem_select.1 hlease
      apply hcleared.cleared lease _ ⟨serviceId, hheld, hthen⟩ hlease
      apply Table.mem_select.2
      rw [hyields.domainId] at hthis
      exact ⟨hcleared.yields.leases lease hrow, hthis⟩
    have hsome := hloop.unsettled_of_blocked
      (fun id => (hcleared.history.getOperation id).symm.trans (hget id)) hblocked
    obtain ⟨id, hid⟩ := List.exists_mem_of_ne_nil _ hsome
    obtain ⟨⟨op, hop, rfl, hkind, hservice⟩, op', hfound, hunsettled⟩ := mem_unsettledInstances.1 hid
    obtain ⟨hrow, hin⟩ := Table.mem_select.1 hop
    obtain ⟨kept, hkept, hid', hkind', hdomain'⟩ :=
      hloop.kept hops (Table.get?_of_mem (t := d.store.db.operations) hrow)
    apply List.ne_nil_of_mem (a := op.id)
    apply mem_unsettledInstances.2
    refine ⟨⟨kept, ?_, hid', hkind'.trans hkind, (serviceIdOf_congr hid').trans hservice⟩, op', ?_,
      hunsettled⟩
    · rw [← hget] at hkept
      apply Table.mem_select.2
      refine ⟨(Table.get?_eq_some_iff.1 hkept).1, ?_⟩
      rw [hdomain', hyields.domainId]
      exact hin
    · rw [hcleared.history.getOperation]
      exact hfound

end Recover

/-- Recovery of a reopened domain settles everything exactly when every call it makes to the
    driver returns, and the journal takes the result of every unfinished operation. -/
theorem recovers_iff [Crypto] {d₀ d : ExecutionDomain} (h : Reopened d₀ d)
    (engine : RecoveryEngine) :
    Recovers engine d ↔ ∀ op ∈ d.store.getUnfinishedOperations d.domainId,
      CallsReturn engine op d.store ∧ Settleable op d.store := by
  have hloop := recoverOperations_ok_iff engine (d.store.getAllOperations d.domainId) h.quiescent
    (unfinished_distinct d.store d.domainId) h.unfinished
  rw [← hloop]
  constructor
  · rintro ⟨d', report, hrun, -⟩
    unfold recover at hrun
    rw [run_bind, run_read] at hrun
    obtain ⟨recovered, d₁, hrest, -⟩ := Prog.bind_ok hrun
    exact ⟨d₁, recovered, hrest⟩
  · rintro ⟨d₁, recovered, hrun⟩
    have hsettled := recoverOperations_settles engine (d.store.getAllOperations d.domainId)
      h.quiescent (unfinished_distinct d.store d.domainId) h.unfinished hrun
    obtain ⟨d₂, d₃, report, hrecover, hconverged, hcleared⟩ :=
      recover_completes hrun hsettled.quiescent
    exact ⟨d₃, report, hrecover, settled_of_loop h.unfinished hsettled hconverged hcleared⟩

/-- A recovery that came to its end has stored its verdict on every operation it found. -/
theorem recover_stores [Crypto] (h : Reopened d₀ d) {engine : RecoveryEngine}
    {report : RecoveryReport} (hrun : (recover engine).run d = (d', .ok report)) :
    ∀ op ∈ d.store.getUnfinishedOperations d.domainId,
      ∃ verdict, judge engine op d.store = .ok verdict ∧
        d'.store.getOperation op.id =
          some (finishedRow (verdict.result (engine.clock op.id)) op) ∧
        (verdict.released = false → KeepsLeases op.id d d') := by
  have hparts := hrun
  unfold recover at hparts
  rw [run_bind, run_read] at hparts
  obtain ⟨recovered, d₁, hloop, -⟩ := Prog.bind_ok hparts
  have hsettled := recoverOperations_settles engine (d.store.getAllOperations d.domainId)
    h.quiescent (unfinished_distinct d.store d.domainId) h.unfinished hloop
  obtain ⟨d₂, d₃, report', hrecover, hconverged, hcleared⟩ :=
    recover_completes hloop hsettled.quiescent
  cases hrun.symm.trans hrecover
  have hget : ∀ id, d'.store.getOperation id = d₁.store.getOperation id := by
    intro id
    unfold getOperation
    rw [hcleared.history.operations, hconverged.operations]
  intro op hop
  obtain ⟨verdict, hjudge, hstored, -⟩ := hsettled.settled op hop
  rw [← hget] at hstored
  refine ⟨verdict, hjudge, hstored, fun hkept => ?_⟩
  obtain ⟨op', result, hop', -, hresult, hkeeps, -⟩ :=
    ((settled_of_loop h.unfinished hsettled hconverged hcleared).leases op hop).stored
  rw [hstored] at hop'
  cases hop'
  cases hresult
  exact hkeeps ((verdict.status_eq_indeterminate_iff _).2 hkept)

/-! ## A crash with two processes -/

/-- Two processes were running when the owner died. -/
@[irreducible]
def crashedStore : SqliteStore :=
  let _ := plainCrypto
  let identity : ProcessIdentity := { pid := 7, spawnTime := 2 }
  let started (opId resource : String) : StoreM Unit := do
    registerOperationIntent (Operation.sample opId [resource]) "d" 1
    updateOperationStatus opId .active (some identity) none 2
  ((do started "A" "a"; started "B" "b" : StoreM Unit).run openedDomain.store).1

/-- The domain of the next owner, before and after its isolation was rebuilt. -/
def acquiredDomain : ExecutionDomain := { openedDomain with store := crashedStore }

def reopenedDomain : ExecutionDomain :=
  acquiredDomain.rebuildIsolationFromStore.toOption.getD acquiredDomain

/-- What the crash has left: the two operations, their leases and their intents. -/
theorem crashedStore_facts :
    acquiredDomain.rebuildIsolationFromStore.isOk = true ∧
      epochFencing "d" crashedStore = .ok () ∧
      crashedStore.getUnfinishedOperations "d" =
        [⟨{ Operation.sample "A" ["a"] with
            status := .active, processIdentity := some { pid := 7, spawnTime := 2 } }, "d"⟩,
          ⟨{ Operation.sample "B" ["b"] with
            status := .active, processIdentity := some { pid := 7, spawnTime := 2 } }, "d"⟩] ∧
      crashedStore.getPersistedResourceLeases "d" =
        [⟨"a", "A", "d", 1, none⟩, ⟨"b", "B", "d", 1, none⟩] ∧
      ∀ op ∈ crashedStore.getUnfinishedOperations "d",
        crashedStore.db.journalEvents.hasEvent op.id "OPERATION_INTENT_REGISTERED" = true ∧
        crashedStore.db.journalEvents.hasEvent op.id "OPERATION_RESULT_RECORDED" = false := by
  decide +kernel

theorem reopenedDomain_rebuilt :
    acquiredDomain.rebuildIsolationFromStore = .ok reopenedDomain := by
  have hok := crashedStore_facts.1
  unfold reopenedDomain
  cases hrebuild : acquiredDomain.rebuildIsolationFromStore with
  | error =>
    rw [hrebuild] at hok
    cases hok
  | ok => rfl

theorem reopenedDomain_store : reopenedDomain.store = crashedStore :=
  (rebuildIsolationFromStore_ok reopenedDomain_rebuilt).same.store

theorem reopened_crashed : Reopened acquiredDomain reopenedDomain := by
  obtain ⟨-, hfenced, hops, hleases, -⟩ := crashedStore_facts
  refine ⟨⟨rfl, hfenced, by decide⟩, rfl, reopenedDomain_rebuilt, ⟨?_, ?_⟩, ?_, ?_⟩
  · show ∀ lease ∈ crashedStore.getPersistedResourceLeases "d", _ ∧
      ∀ other ∈ crashedStore.getPersistedResourceLeases "d", _
    rw [hleases]
    decide
  · show ∀ op ∈ crashedStore.getUnfinishedOperations "d", ∀ r ∈ op.requiredResources,
      (∀ other ∈ crashedStore.getUnfinishedOperations "d", _) ∧
        ∀ lease ∈ crashedStore.getPersistedResourceLeases "d", _
    rw [hops, hleases]
    decide
  · show ∀ op ∈ crashedStore.getUnfinishedOperations "d",
      ∀ lease ∈ crashedStore.getPersistedResourceLeases "d", _
    rw [hops, hleases]
    decide
  · show ∀ op ∈ crashedStore.getUnfinishedOperations "d", _
    rw [hops]
    unfold ServiceNamed
    decide

/-- A driver that finds every process gone, and probes only some of them without an error. -/
def probing (fails : String → Bool) : PlatformDriver where
  answer
    | .verifyIdentity opId _ =>
      if fails opId then .error (.error "probe failed") else .ok .notOriginalProcess
    | .terminate .. => .ok ⟨.confirmedStopped, none, none⟩
    | .settleTree .. => .ok .empty
    | .isGroupAlive .. => .ok false
    | .readBootId .. => .ok none
    | .getGroupEvidence .. => .ok []
    | .terminateGroup .. => .ok ⟨.confirmedStopped, none, none⟩

def probingEngine (fails : String → Bool) : RecoveryEngine where
  driver := probing fails
  fingerprint _ _ := none
  parseDate _ := none
  clock _ := 10
  around := ⟨fun _ => false, fun _ => 0, 10⟩

/-- When the driver answers, both operations are settled. -/
theorem crashed_recovers :
    let _ := plainCrypto
    Recovers (probingEngine fun _ => false) reopenedDomain := by
  intro _
  refine (recovers_iff reopened_crashed _).2 fun op hop => ⟨fun call _ => ?_, ?_⟩
  · cases call with
    | verifyIdentity => exact ⟨_, rfl⟩
    | terminate => exact ⟨_, rfl⟩
    | settleTree => exact ⟨_, rfl⟩
    | isGroupAlive => exact ⟨_, rfl⟩
    | readBootId => exact ⟨_, rfl⟩
    | getGroupEvidence => exact ⟨_, rfl⟩
    | terminateGroup => exact ⟨_, rfl⟩
  · rw [reopenedDomain_store] at hop ⊢
    have hjournal := crashedStore_facts.2.2.2.2 op
    rw [(rebuildIsolationFromStore_ok reopenedDomain_rebuilt).same.domainId] at hop
    exact ⟨(hjournal hop).1, (hjournal hop).2⟩

/-- The probe of the first process fails: recovery throws, and the second stays unfinished. -/
theorem failing_probe_strands :
    let _ := plainCrypto
    Reopened acquiredDomain reopenedDomain ∧
      ¬ Recovers (probingEngine fun opId => opId = "A") reopenedDomain ∧
      ∃ op ∈ ((recover (probingEngine fun opId => opId = "A")).run
        reopenedDomain).1.store.getUnfinishedOperations "d", op.id = "B" := by
  intro _
  have hrun : ((recover (probingEngine fun opId => opId = "A")).run reopenedDomain).2.isOk =
        false ∧
      ∃ op ∈ ((recover (probingEngine fun opId => opId = "A")).run
        reopenedDomain).1.store.getUnfinishedOperations "d", op.id = "B" := by
    decide +kernel
  refine ⟨reopened_crashed, ?_, hrun.2⟩
  rintro ⟨d', report, hreturns, -⟩
  have hthrows := hrun.1
  rw [hreturns] at hthrows
  cases hthrows

end Recovery
end XioFlow
