/-
  XioFlow.Isa.Result

  `replayExecutionResult`: the events of a journal, folded into the result that
  they are about.

  An event replaces the entry that its `instructionId` names, but what it puts
  there has an id of its own.  Where the two agree the fold keeps the last
  result about every instruction, and may be stopped and taken up anywhere.
-/

import XioFlow.Pipeline.Program

namespace XioFlow.Isa.Result

open Lib
open Pipeline (InstructionStatus idPattern idChar)

/-! ## Results -/

inductive ObservationStatus where
  | proven | sampled | unknown | unsupported | indeterminate
  deriving DecidableEq

/-- `rest` is what nothing here looks at. -/
structure InstructionResult (ρ : Type) where
  id : String
  status : InstructionStatus
  observation : ObservationStatus
  evidence : List String
  artifactRefs : List String
  lease : Option String := none
  possibleEffects : Option (List String) := none
  nextActions : Option (List String) := none
  rest : ρ
  deriving DecidableEq

structure EventPage where
  nextCursor : Option String
  omitted : JsNumber
  deriving DecidableEq

structure ExecutionResult (ρ σ : Type) where
  requestId : String
  programId : Option String
  status : σ
  results : List (InstructionResult ρ)
  events : EventPage
  deriving DecidableEq

inductive EventType where
  | instructionResult | programStatus
  deriving DecidableEq

structure ResultJournalEvent (ρ σ : Type) where
  sequence : JsNumber
  cursor : String
  type : EventType
  instructionId : Option String := none
  result : Option (InstructionResult ρ) := none
  status : Option σ := none

variable {ρ σ : Type}

/-- `^tag[A-Za-z0-9][A-Za-z0-9._:-]{0,239}$` -/
def tagged (tag s : String) : Bool :=
  hasPrefix tag s &&
    matchesName Char.isAlphanum idChar 240 (String.ofList (s.toList.drop tag.toList.length))

/-- The value of a safe integer. -/
def safeInteger? : JsNumber → Option Int
  | .finite value =>
    if value.den = 1 ∧ -9007199254740991 ≤ value ∧ value ≤ 9007199254740991 then some value.num
    else none
  | .negZero => some 0
  | .nonFinite => none

/-! ## Checks -/

/-- The error, unless the condition holds. -/
def ensure (condition : Bool) (error : String) : Except String Unit :=
  if condition then .ok () else .error error

def createInstructionResult (input : InstructionResult ρ) :
    Except String (InstructionResult ρ) := do
  ensure (idPattern input.id) ("invalid instruction result id '" ++ input.id ++ "'")
  ensure (input.artifactRefs.all (tagged "artifact:"))
    ("instruction '" ++ input.id ++ "' contains an invalid artifactRef")
  ensure input.artifactRefs.Nodup
    ("instruction '" ++ input.id ++ "' contains duplicate artifactRefs")
  if input.status = .indeterminate then
    ensure (input.lease.any (· ≠ "") && input.possibleEffects.isSome && input.nextActions.isSome)
      ("indeterminate instruction '" ++ input.id ++
        "' requires lease, possibleEffects and nextActions")
    ensure (input.observation = .indeterminate)
      ("indeterminate instruction '" ++ input.id ++ "' requires indeterminate observation")
  return input

/-- The results in order; `ids` are those before. -/
def checkResults (ids : List String) :
    List (InstructionResult ρ) → Except String (List (InstructionResult ρ))
  | [] => return []
  | result :: results => do
    let checked ← createInstructionResult result
    ensure (!ids.contains checked.id) ("duplicate instruction result '" ++ checked.id ++ "'")
    let rest ← checkResults (checked.id :: ids) results
    return checked :: rest

def createExecutionResult (input : ExecutionResult ρ σ) : Except String (ExecutionResult ρ σ) := do
  ensure (idPattern input.requestId) "invalid requestId"
  ensure (input.programId.all idPattern) "invalid programId"
  ensure (input.results.length ≤ 256) "execution result contains too many instruction results"
  let results ← checkResults [] input.results
  ensure (input.events.nextCursor.all (tagged "event:")) "invalid event cursor"
  ensure ((safeInteger? input.events.omitted).any (0 ≤ ·)) "invalid omitted event count"
  return { input with results }

/-! ## Replay -/

/-- The result in the place of the entry of that id, or at the end. -/
def place (id : String) (result : InstructionResult ρ) :
    List (InstructionResult ρ) → List (InstructionResult ρ)
  | [] => [result]
  | item :: items => if item.id = id then result :: items else item :: place id result items

/-- What an event does, after its sequence number was looked at. -/
def apply (r : ExecutionResult ρ σ) (event : ResultJournalEvent ρ σ) :
    Except String (ExecutionResult ρ σ) := do
  ensure (tagged "event:" event.cursor) ("invalid journal cursor '" ++ event.cursor ++ "'")
  let events := { r.events with nextCursor := some event.cursor }
  match event.type with
  | .programStatus =>
    match event.status with
    | none => .error "program.status event is missing status"
    | some status => return { r with status, events }
  | .instructionResult =>
    match event.result with
    | none => .error "instruction.result event is missing result"
    | some result => do
      let result ← createInstructionResult result
      return { r with results := place (event.instructionId.getD result.id) result r.results, events }

/-- An event, after those up to a sequence number. -/
def step (st : ExecutionResult ρ σ × Int) (event : ResultJournalEvent ρ σ) :
    Except String (ExecutionResult ρ σ × Int) :=
  match safeInteger? event.sequence with
  | none => .error "journal events must have strictly increasing sequence numbers"
  | some sequence =>
    if sequence ≤ st.2 then .error "journal events must have strictly increasing sequence numbers"
    else do
      let r ← apply st.1 event
      return (r, sequence)

def replayExecutionResult (seed : ExecutionResult ρ σ) (events : List (ResultJournalEvent ρ σ)) :
    Except String (ExecutionResult ρ σ) := do
  let st ← events.foldlM step (seed, -1)
  createExecutionResult st.1

/-! ## Replay in place -/

/-- A result as an object: its array and its event page are objects of their own. -/
structure ResultCell (σ : Type) where
  requestId : String
  programId : Option String
  status : σ
  resultsAt : Nat
  eventsAt : Nat

/-- The objects of the caller and of the replay, by address; from `next` on there are none. -/
structure Cells (ρ σ : Type) where
  results : Nat → ResultCell σ
  arrays : Nat → List (InstructionResult ρ)
  pages : Nat → EventPage
  next : Nat

namespace Cells

def read (cells : Cells ρ σ) (a : Nat) : ExecutionResult ρ σ :=
  let cell := cells.results a
  ⟨cell.requestId, cell.programId, cell.status, cells.arrays cell.resultsAt,
    cells.pages cell.eventsAt⟩

/-- The assignments to the fields of an object. -/
def write (cells : Cells ρ σ) (a : Nat) (r : ExecutionResult ρ σ) : Cells ρ σ :=
  let cell := cells.results a
  { cells with
    results := Function.update cells.results a { cell with status := r.status }
    arrays := Function.update cells.arrays cell.resultsAt r.results
    pages := Function.update cells.pages cell.eventsAt r.events }

/-- A new object with a new array and a new page. -/
def alloc (cells : Cells ρ σ) (r : ExecutionResult ρ σ) : Cells ρ σ :=
  ⟨Function.update cells.results cells.next
      ⟨r.requestId, r.programId, r.status, cells.next, cells.next⟩,
    Function.update cells.arrays cells.next r.results,
    Function.update cells.pages cells.next r.events, cells.next + 1⟩

/-- The objects below an address are the same. -/
def SameBelow (n : Nat) (cells cells' : Cells ρ σ) : Prop :=
  ∀ a < n, cells'.results a = cells.results a ∧ cells'.arrays a = cells.arrays a ∧
    cells'.pages a = cells.pages a

end Cells

/-- One turn of the loop, on the copy. -/
def stepAt (a : Nat) (st : Cells ρ σ × Int) (event : ResultJournalEvent ρ σ) :
    Except String (Cells ρ σ × Int) := do
  let (r, sequence) ← step (st.1.read a, st.2) event
  return (st.1.write a r, sequence)

/-- `cloneResult`, the loop, and `createExecutionResult`, with the address of what is returned. -/
def replayAt (cells : Cells ρ σ) (seedAt : Nat) (events : List (ResultJournalEvent ρ σ)) :
    Except String (Cells ρ σ × Nat) := do
  let copyAt := cells.next
  let st ← events.foldlM (stepAt copyAt) (cells.alloc (cells.read seedAt), -1)
  let r ← createExecutionResult (st.1.read copyAt)
  return (st.1.alloc r, st.1.next)

/-! ## What is promised -/

/-- The results that the events bring, in order. -/
def brought (events : List (ResultJournalEvent ρ σ)) : List (InstructionResult ρ) :=
  events.filterMap fun event => if event.type = .instructionResult then event.result else none

/-- Exactly one entry for every instruction, in order of first appearance: the last one. -/
def LastWriters (written results : List (InstructionResult ρ)) : Prop :=
  results.map (·.id) = (written.map (·.id)).eraseDups ∧
    ∀ x ∈ results, (written.filter (·.id = x.id)).getLast? = some x

/-- The sequence numbers of the events increase, from above the given one on. -/
def Increasing (last : Int) : List (ResultJournalEvent ρ σ) → Prop
  | [] => True
  | event :: events =>
    ∃ sequence, safeInteger? event.sequence = some sequence ∧ last < sequence ∧
      Increasing sequence events

/-- The replay of the events can be stopped anywhere and taken up again, and keeps the last
    result about every instruction. -/
structure Compositional (seed : ExecutionResult ρ σ) (events : List (ResultJournalEvent ρ σ)) :
    Prop where
  resumed : ∀ e₁ e₂ r, events = e₁ ++ e₂ → replayExecutionResult seed events = .ok r →
    ∃ p, replayExecutionResult seed e₁ = .ok p ∧ replayExecutionResult p e₂ = .ok r
  joined : ∀ e₁ e₂ p r, events = e₁ ++ e₂ → replayExecutionResult seed e₁ = .ok p →
    replayExecutionResult p e₂ = .ok r → replayExecutionResult seed events = .ok r
  last : ∀ r, replayExecutionResult seed events = .ok r →
    LastWriters (seed.results ++ brought events) r.results
  untouched : ∀ (cells cells' : Cells ρ σ) seedAt a, cells.read seedAt = seed →
    replayAt cells seedAt events = .ok (cells', a) →
      replayExecutionResult seed events = .ok (cells'.read a) ∧ cells.SameBelow cells.next cells'

/-- A result event that names an instruction brings a result about it. -/
def Agrees (event : ResultJournalEvent ρ σ) : Prop :=
  event.type = .instructionResult →
    ∀ id ∈ event.instructionId, ∀ result ∈ event.result, id = result.id

/-! ## What is accepted -/

/-- What `createExecutionResult` asks of a result, except for the number of its entries. -/
structure Wellformed (r : ExecutionResult ρ σ) : Prop where
  requestId : idPattern r.requestId = true
  programId : r.programId.all idPattern = true
  each : ∀ x ∈ r.results, createInstructionResult x = .ok x
  distinct : (r.results.map (·.id)).Nodup
  cursor : r.events.nextCursor.all (tagged "event:") = true
  omitted : (safeInteger? r.events.omitted).any (0 ≤ ·) = true

theorem ensure_bind {α : Type} {c : Bool} {error : String} {f : Unit → Except String α} {y : α} :
    (ensure c error >>= f) = .ok y ↔ c = true ∧ f () = .ok y := by
  cases c with
  | true => exact ⟨fun h => ⟨rfl, h⟩, fun h => h.2⟩
  | false => exact ⟨nofun, fun h => absurd h.1 Bool.false_ne_true⟩

theorem bind_ok {α β : Type} {x : Except String α} {f : α → Except String β} {y : β} :
    (x >>= f) = .ok y ↔ ∃ a, x = .ok a ∧ f a = .ok y := by
  cases x with
  | error => exact ⟨nofun, fun ⟨_, h, _⟩ => nomatch h⟩
  | ok a => exact ⟨fun h => ⟨a, rfl, h⟩, fun ⟨_, ha, h⟩ => Except.ok.inj ha ▸ h⟩

variable {x : InstructionResult ρ} {s : Int}

theorem createInstructionResult_eq {y : InstructionResult ρ}
    (h : createInstructionResult x = .ok y) : y = x := by
  unfold createInstructionResult at h
  rw [ensure_bind, ensure_bind, ensure_bind] at h
  obtain ⟨-, -, -, h⟩ := h
  split at h
  · rw [ensure_bind, ensure_bind] at h
    exact (Except.ok.inj h.2.2).symm
  · exact (Except.ok.inj h).symm

theorem checkResults_ok {ids : List String} {xs ys : List (InstructionResult ρ)} :
    checkResults ids xs = .ok ys ↔ ys = xs ∧ (∀ x ∈ xs, createInstructionResult x = .ok x) ∧
      (xs.map (·.id)).Nodup ∧ ∀ x ∈ xs, x.id ∉ ids := by
  induction xs generalizing ids ys with
  | nil => simp [checkResults, pure, Except.pure, eq_comm]
  | cons x xs ih =>
    rw [checkResults, bind_ok]
    constructor
    · rintro ⟨checked, hchecked, h⟩
      obtain rfl := createInstructionResult_eq hchecked
      rw [ensure_bind, bind_ok] at h
      obtain ⟨hnew, rest, hrest, h⟩ := h
      obtain ⟨rfl, hall, hnodup, hids⟩ := ih.1 hrest
      refine ⟨(Except.ok.inj h).symm, ?_, ?_, ?_⟩
      · exact List.forall_mem_cons.2 ⟨hchecked, hall⟩
      · rw [List.map_cons, List.nodup_cons]
        refine ⟨fun hmem => ?_, hnodup⟩
        obtain ⟨z, hz, heq⟩ := List.mem_map.1 hmem
        exact hids z hz (by rw [heq]; exact List.mem_cons_self)
      · refine List.forall_mem_cons.2 ⟨by simpa using hnew, fun z hz hmem => ?_⟩
        exact hids z hz (List.mem_cons_of_mem _ hmem)
    · rintro ⟨rfl, hall, hnodup, hids⟩
      obtain ⟨hx, hxs⟩ := List.forall_mem_cons.1 hall
      obtain ⟨hxid, hxsids⟩ := List.forall_mem_cons.1 hids
      rw [List.map_cons, List.nodup_cons] at hnodup
      refine ⟨x, hx, ?_⟩
      rw [ensure_bind, bind_ok]
      refine ⟨by simpa using hxid, xs, ih.2 ⟨rfl, hxs, hnodup.2, fun z hz hmem => ?_⟩, rfl⟩
      obtain hsame | hmem := List.mem_cons.1 hmem
      · exact hnodup.1 (hsame ▸ List.mem_map.2 ⟨z, hz, rfl⟩)
      · exact hxsids z hz hmem

variable {r r' : ExecutionResult ρ σ} {events : List (ResultJournalEvent ρ σ)} {s' : Int}

theorem createExecutionResult_ok :
    createExecutionResult r = .ok r' ↔ r' = r ∧ Wellformed r ∧ r.results.length ≤ 256 := by
  unfold createExecutionResult
  rw [ensure_bind, ensure_bind, ensure_bind, bind_ok]
  constructor
  · rintro ⟨hrequest, hprogram, hlength, results, hresults, h⟩
    obtain ⟨rfl, hall, hnodup, -⟩ := checkResults_ok.1 hresults
    rw [ensure_bind, ensure_bind] at h
    exact ⟨(Except.ok.inj h.2.2).symm, ⟨hrequest, hprogram, hall, hnodup, h.1, h.2.1⟩,
      by simpa using hlength⟩
  · rintro ⟨rfl, hwf, hlength⟩
    refine ⟨hwf.requestId, hwf.programId, by simpa using hlength, r'.results,
      checkResults_ok.2 ⟨rfl, hwf.each, hwf.distinct, fun _ _ => List.not_mem_nil⟩, ?_⟩
    rw [ensure_bind, ensure_bind]
    exact ⟨hwf.cursor, hwf.omitted, rfl⟩

/-! ## One event -/

theorem place_ids (x : InstructionResult ρ) (items : List (InstructionResult ρ)) :
    (place x.id x items).map (·.id) =
      if x.id ∈ items.map (·.id) then items.map (·.id) else items.map (·.id) ++ [x.id] := by
  induction items with
  | nil => rfl
  | cons item items ih =>
    rw [place]
    by_cases hid : item.id = x.id
    · simp [hid]
    · rw [if_neg hid, List.map_cons, ih]
      simp only [List.map_cons, List.mem_cons, Ne.symm hid, false_or]
      split <;> rfl

theorem mem_place {y : InstructionResult ρ} {items : List (InstructionResult ρ)}
    (hnodup : (items.map (·.id)).Nodup) (h : y ∈ place x.id x items) :
    y = x ∨ (y ∈ items ∧ y.id ≠ x.id) := by
  induction items with
  | nil => exact .inl (List.mem_singleton.1 h)
  | cons item items ih =>
    rw [List.map_cons, List.nodup_cons] at hnodup
    rw [place] at h
    split at h
    · rename_i hid
      obtain rfl | hmem := List.mem_cons.1 h
      · exact .inl rfl
      · refine .inr ⟨.tail _ hmem, fun heq => hnodup.1 ?_⟩
        rw [hid, ← heq]
        exact List.mem_map.2 ⟨y, hmem, rfl⟩
    · rename_i hid
      obtain rfl | hmem := List.mem_cons.1 h
      · exact .inr ⟨List.mem_cons_self, hid⟩
      · exact (ih hnodup.2 hmem).imp_right fun hy => ⟨.tail _ hy.1, hy.2⟩

theorem place_nodup {items : List (InstructionResult ρ)} (hnodup : (items.map (·.id)).Nodup) :
    ((place x.id x items).map (·.id)).Nodup := by
  rw [place_ids]
  split
  · exact hnodup
  · rename_i hnew
    exact List.nodup_append.2 ⟨hnodup, by simp, fun a ha b hb heq => by
      rw [List.mem_singleton.1 hb] at heq
      exact hnew (heq ▸ ha)⟩

theorem length_le_place (x : InstructionResult ρ) (items : List (InstructionResult ρ)) :
    items.length ≤ (place x.id x items).length := by
  have hids := congrArg List.length (place_ids x items)
  rw [List.length_map] at hids
  rw [hids]
  split <;> simp

variable {event : ResultJournalEvent ρ σ}

/-- What an event does that agrees with its result. -/
theorem apply_ok (hagree : Agrees event)
    (h : apply r event = .ok r') :
    tagged "event:" event.cursor = true ∧ r'.requestId = r.requestId ∧ r'.programId = r.programId ∧
      r'.events = { r.events with nextCursor := some event.cursor } ∧
      ((brought [event] = [] ∧ r'.results = r.results) ∨
        ∃ x, brought [event] = [x] ∧ createInstructionResult x = .ok x ∧
          r'.results = place x.id x r.results) := by
  unfold apply at h
  rw [ensure_bind] at h
  obtain ⟨hcursor, h⟩ := h
  cases htype : event.type with
  | programStatus =>
    rw [htype] at h
    cases hstatus : event.status with
    | none =>
      rw [hstatus] at h
      cases h
    | some =>
      rw [hstatus] at h
      cases h
      exact ⟨hcursor, rfl, rfl, rfl, .inl ⟨by simp [brought, htype], rfl⟩⟩
  | instructionResult =>
    rw [htype] at h
    cases hresult : event.result with
    | none =>
      rw [hresult] at h
      cases h
    | some =>
      rw [hresult] at h
      obtain ⟨x, hx, hdone⟩ := bind_ok.1 h
      obtain rfl := createInstructionResult_eq hx
      have hid : event.instructionId.getD x.id = x.id := by
        cases hname : event.instructionId with
        | none => rfl
        | some id => exact hagree htype id hname x hresult
      rw [hid] at hdone
      cases hdone
      exact ⟨hcursor, rfl, rfl, rfl, .inr ⟨x, by simp [brought, htype, hresult], hx, rfl⟩⟩

theorem Wellformed.apply (hwf : Wellformed r)
    (hagree : Agrees event) (h : apply r event = .ok r') :
    Wellformed r' ∧ r.results.length ≤ r'.results.length := by
  obtain ⟨hcursor, hrequest, hprogram, hevents, hresults⟩ := apply_ok hagree h
  have hheader : idPattern r'.requestId = true ∧ r'.programId.all idPattern = true ∧
      r'.events.nextCursor.all (tagged "event:") = true ∧
      (safeInteger? r'.events.omitted).any (0 ≤ ·) = true := by
    rw [hrequest, hprogram, hevents]
    exact ⟨hwf.requestId, hwf.programId, hcursor, hwf.omitted⟩
  obtain ⟨hid, hpid, hcur, hom⟩ := hheader
  obtain ⟨-, hsame⟩ | ⟨x, -, hx, hplace⟩ := hresults
  · exact ⟨⟨hid, hpid, hsame ▸ hwf.each, hsame ▸ hwf.distinct, hcur, hom⟩, hsame ▸ Nat.le_refl _⟩
  · refine ⟨⟨hid, hpid, ?_, ?_, hcur, hom⟩, ?_⟩
    · rw [hplace]
      intro y hy
      obtain rfl | hy := mem_place hwf.distinct hy
      · exact hx
      · exact hwf.each y hy.1
    · rw [hplace]
      exact place_nodup hwf.distinct
    · rw [hplace]
      exact length_le_place x r.results

/-! ## Many events -/

theorem Wellformed.foldlM (hwf : Wellformed r) (hagree : ∀ event ∈ events, Agrees event)
    (h : events.foldlM Result.apply r = .ok r') :
    Wellformed r' ∧ r.results.length ≤ r'.results.length := by
  induction events generalizing r with
  | nil => exact Except.ok.inj h ▸ ⟨hwf, Nat.le_refl _⟩
  | cons event events ih =>
    obtain ⟨p, hp, hrest⟩ := bind_ok.1 h
    obtain ⟨hevent, hevents⟩ := List.forall_mem_cons.1 hagree
    obtain ⟨hwfp, hle⟩ := hwf.apply hevent hp
    obtain ⟨hwf', hle'⟩ := ih hwfp hevents hrest
    exact ⟨hwf', hle.trans hle'⟩

theorem Increasing.mono (hle : s' ≤ s) (h : Increasing s events) : Increasing s' events := by
  cases events with
  | nil => trivial
  | cons =>
    obtain ⟨n, hn, hlt, hrest⟩ := h
    exact ⟨n, hn, by omega, hrest⟩

theorem Increasing.append {e₁ e₂ : List (ResultJournalEvent ρ σ)} (h : Increasing s (e₁ ++ e₂)) :
    Increasing s e₁ ∧ Increasing s e₂ := by
  induction e₁ generalizing s with
  | nil => exact ⟨trivial, h⟩
  | cons event e₁ ih =>
    obtain ⟨n, hn, hlt, hrest⟩ := h
    obtain ⟨h₁, h₂⟩ := ih hrest
    exact ⟨⟨n, hn, hlt, h₁⟩, h₂.mono (by omega)⟩

theorem Increasing.join {t : Int} {e₁ e₂ : List (ResultJournalEvent ρ σ)}
    (h : Increasing s (e₁ ++ e₂)) (h₁ : Increasing t e₁) (h₂ : Increasing t e₂) :
    Increasing t (e₁ ++ e₂) := by
  cases e₁ with
  | nil => exact h₂
  | cons =>
    obtain ⟨n, hn, -, hrest⟩ := h
    obtain ⟨n', hn', hlt, -⟩ := h₁
    obtain rfl := Option.some.inj (hn.symm.trans hn')
    exact ⟨n, hn, hlt, hrest⟩

/-- The sequence numbers are checked beside what the events do. -/
theorem foldlM_step :
    (∃ s', events.foldlM step (r, s) = .ok (r', s')) ↔
      Increasing s events ∧ events.foldlM apply r = .ok r' := by
  induction events generalizing r s with
  | nil =>
    constructor
    · rintro ⟨s', h⟩
      cases h
      exact ⟨trivial, rfl⟩
    · rintro ⟨-, h⟩
      cases h
      exact ⟨s, rfl⟩
  | cons event events ih =>
    simp only [List.foldlM_cons, bind_ok, Increasing]
    constructor
    · rintro ⟨s', ⟨p, n⟩, hstep, hrest⟩
      unfold step at hstep
      cases hn : safeInteger? event.sequence with
      | none =>
        rw [hn] at hstep
        cases hstep
      | some =>
        rw [hn] at hstep
        simp only at hstep
        split at hstep
        · cases hstep
        · rename_i hlt
          obtain ⟨q, hq, heq⟩ := bind_ok.1 hstep
          cases heq
          obtain ⟨hinc, hfold⟩ := ih.1 ⟨s', hrest⟩
          exact ⟨⟨_, rfl, by omega, hinc⟩, _, hq, hfold⟩
    · rintro ⟨⟨n, hn, hlt, hinc⟩, p, hp, hfold⟩
      obtain ⟨s', hs'⟩ := ih.2 ⟨hinc, hfold⟩
      refine ⟨s', (p, n), ?_, hs'⟩
      unfold step
      rw [hn]
      simp only
      rw [if_neg (by omega), bind_ok]
      exact ⟨p, hp, rfl⟩

theorem replay_ok {seed : ExecutionResult ρ σ} :
    replayExecutionResult seed events = .ok r ↔
      Increasing (-1) events ∧ events.foldlM apply seed = .ok r ∧ Wellformed r ∧
        r.results.length ≤ 256 := by
  unfold replayExecutionResult
  rw [bind_ok]
  constructor
  · rintro ⟨⟨p, s⟩, hfold, hcreate⟩
    obtain ⟨rfl, hwf, hlength⟩ := createExecutionResult_ok.1 hcreate
    obtain ⟨hinc, happly⟩ := foldlM_step.1 ⟨s, hfold⟩
    exact ⟨hinc, happly, hwf, hlength⟩
  · rintro ⟨hinc, happly, hwf, hlength⟩
    obtain ⟨s, hfold⟩ := foldlM_step.2 ⟨hinc, happly⟩
    exact ⟨(r, s), hfold, createExecutionResult_ok.2 ⟨rfl, hwf, hlength⟩⟩

/-! ## The last result about every instruction -/

theorem LastWriters.place {written results : List (InstructionResult ρ)}
    (h : LastWriters written results) (x : InstructionResult ρ) :
    LastWriters (written ++ [x]) (place x.id x results) := by
  obtain ⟨hids, hlast⟩ := h
  have hnodup : (results.map (·.id)).Nodup := hids ▸ nodup_eraseDups _
  constructor
  · rw [place_ids, hids, List.map_append, List.eraseDups_append]
    by_cases hmem : x.id ∈ written.map (·.id)
    · have hmem' : x.id ∈ (written.map (·.id)).eraseDups := List.mem_eraseDups.2 hmem
      have hnone : [x.id].removeAll (written.map (·.id)) = [] := by
        rw [List.removeAll, List.filter_eq_nil_iff]
        simpa using hmem
      rw [if_pos hmem', List.map_singleton, hnone, List.eraseDups_nil, List.append_nil]
    · have hmem' : x.id ∉ (written.map (·.id)).eraseDups := fun h => hmem (List.mem_eraseDups.1 h)
      have hkept : [x.id].removeAll (written.map (·.id)) = [x.id] := by
        rw [List.removeAll, List.filter_eq_self]
        simpa using hmem
      rw [if_neg hmem', List.map_singleton, hkept, List.eraseDups_cons]
      rfl
  · intro y hy
    rw [List.filter_append]
    obtain rfl | ⟨hy, hne⟩ := mem_place hnodup hy
    · simp
    · have hother : ([x].filter fun z => z.id = y.id) = [] := by simp [Ne.symm hne]
      rw [hother, List.append_nil]
      exact hlast y hy

theorem lastWriters_self {results : List (InstructionResult ρ)} (h : (results.map (·.id)).Nodup) :
    LastWriters results results := by
  refine ⟨((eraseDups_eq_self_iff _).2 h).symm, fun x hx => ?_⟩
  induction results with
  | nil => cases hx
  | cons y results ih =>
    rw [List.map_cons, List.nodup_cons] at h
    obtain rfl | hx := List.mem_cons.1 hx
    · have hnone : results.filter (·.id = x.id) = [] := by
        rw [List.filter_eq_nil_iff]
        exact fun z hz => by simpa using fun heq => h.1 (List.mem_map.2 ⟨z, hz, heq⟩)
      rw [List.filter_cons_of_pos (by simp), hnone]
      rfl
    · have hne : y.id ≠ x.id := fun heq => h.1 (heq ▸ List.mem_map.2 ⟨x, hx, rfl⟩)
      rw [List.filter_cons_of_neg (by simpa using hne)]
      exact ih h.2 hx

theorem LastWriters.foldlM {written : List (InstructionResult ρ)}
    (h : LastWriters written r.results) (hagree : ∀ event ∈ events, Agrees event)
    (hfold : events.foldlM apply r = .ok r') :
    LastWriters (written ++ brought events) r'.results := by
  induction events generalizing r written with
  | nil =>
    cases hfold
    simpa [brought] using h
  | cons event events ih =>
    obtain ⟨p, hp, hrest⟩ := bind_ok.1 hfold
    obtain ⟨hevent, hevents⟩ := List.forall_mem_cons.1 hagree
    have hsplit : brought (event :: events) = brought [event] ++ brought events :=
      List.filterMap_append (l := [event])
    obtain ⟨-, -, -, -, ⟨hnone, hsame⟩ | ⟨x, hx, -, hplace⟩⟩ := apply_ok hevent hp
    · rw [hsplit, hnone, List.nil_append]
      exact ih (hsame ▸ h) hevents hrest
    · rw [hsplit, hx, ← List.append_assoc]
      exact ih (hplace ▸ h.place x) hevents hrest

/-! ## The caller's objects -/

namespace Cells

theorem read_alloc (cells : Cells ρ σ) (r : ExecutionResult ρ σ) :
    (cells.alloc r).read cells.next = r := by
  simp [read, alloc]

theorem alloc_same (cells : Cells ρ σ) (r : ExecutionResult ρ σ) :
    cells.SameBelow cells.next (cells.alloc r) := by
  intro a ha
  have hne : a ≠ cells.next := by omega
  simp [alloc, hne]

/-- The copy is at an address of its own, with its array and its page. -/
def Copied (cells : Cells ρ σ) (n : Nat) : Prop :=
  (cells.results n).resultsAt = n ∧ (cells.results n).eventsAt = n ∧ n < cells.next

theorem copied_alloc (cells : Cells ρ σ) (r : ExecutionResult ρ σ) :
    (cells.alloc r).Copied cells.next := by
  simp [Copied, alloc]

variable {cells : Cells ρ σ}

variable {n : Nat}

theorem Copied.write (h : cells.Copied n) (r : ExecutionResult ρ σ) :
    (cells.write n r).Copied n := by
  simpa [Copied, Cells.write] using h

theorem Copied.write_same (h : cells.Copied n) (r : ExecutionResult ρ σ) :
    cells.SameBelow n (cells.write n r) := by
  intro a ha
  have hne : a ≠ n := by omega
  simp [Cells.write, h.1, h.2.1, hne]

/-- What was written is read, as long as the header is that of the object. -/
theorem read_write {r : ExecutionResult ρ σ} (hrequest : r.requestId = (cells.read n).requestId)
    (hprogram : r.programId = (cells.read n).programId) : (cells.write n r).read n = r := by
  obtain ⟨requestId, programId, status, results, events⟩ := r
  obtain rfl : requestId = _ := hrequest
  obtain rfl : programId = _ := hprogram
  simp [read, Cells.write]

theorem SameBelow.trans {c₁ c₂ c₃ : Cells ρ σ} (h : c₁.SameBelow n c₂) (h' : c₂.SameBelow n c₃) :
    c₁.SameBelow n c₃ := by
  intro a ha
  obtain ⟨h₁, h₂, h₃⟩ := h a ha
  obtain ⟨h₁', h₂', h₃'⟩ := h' a ha
  exact ⟨h₁'.trans h₁, h₂'.trans h₂, h₃'.trans h₃⟩

end Cells

theorem apply_header (h : apply r event = .ok r') :
    r'.requestId = r.requestId ∧ r'.programId = r.programId := by
  unfold apply at h
  rw [ensure_bind] at h
  obtain ⟨-, h⟩ := h
  cases htype : event.type with
  | programStatus =>
    cases hstatus : event.status with
    | none => simp [htype, hstatus] at h
    | some =>
      rw [htype, hstatus] at h
      cases h
      exact ⟨rfl, rfl⟩
  | instructionResult =>
    cases hresult : event.result with
    | none => simp [htype, hresult] at h
    | some =>
      rw [htype, hresult] at h
      obtain ⟨x, -, hdone⟩ := bind_ok.1 h
      cases hdone
      exact ⟨rfl, rfl⟩

theorem step_header (h : step (r, s) event = .ok (r', s')) :
    r'.requestId = r.requestId ∧ r'.programId = r.programId := by
  unfold step at h
  split at h
  · cases h
  · split at h
    · cases h
    · obtain ⟨p, hp, heq⟩ := bind_ok.1 h
      cases heq
      exact apply_header hp

theorem foldlM_stepAt {cells cells' : Cells ρ σ} {n : Nat} (hcopy : cells.Copied n)
    (h : events.foldlM (stepAt n) (cells, s) = .ok (cells', s')) :
    events.foldlM step (cells.read n, s) = .ok (cells'.read n, s') ∧ cells'.Copied n ∧
      cells.SameBelow n cells' := by
  induction events generalizing cells s with
  | nil =>
    cases h
    exact ⟨rfl, hcopy, fun _ _ => ⟨rfl, rfl, rfl⟩⟩
  | cons event events ih =>
    obtain ⟨⟨middle, sm⟩, hstep, hrest⟩ := bind_ok.1 h
    obtain ⟨⟨r, sr⟩, hr, hw⟩ := bind_ok.1 hstep
    cases hw
    obtain ⟨hrequest, hprogram⟩ := step_header hr
    obtain ⟨hfold, hcopy', hsame⟩ := ih (hcopy.write r) hrest
    rw [Cells.read_write hrequest hprogram] at hfold
    exact ⟨bind_ok.2 ⟨(r, sm), hr, hfold⟩, hcopy', (hcopy.write_same r).trans hsame⟩

/-- The replay in place returns what the replay does, and leaves the caller's objects alone. -/
theorem replayAt_ok {cells cells' : Cells ρ σ} {seedAt a : Nat}
    (h : replayAt cells seedAt events = .ok (cells', a)) :
    replayExecutionResult (cells.read seedAt) events = .ok (cells'.read a) ∧
      cells.SameBelow cells.next cells' := by
  obtain ⟨⟨middle, s⟩, hfold, hdone⟩ := bind_ok.1 h
  obtain ⟨r, hcreate, heq⟩ := bind_ok.1 hdone
  cases heq
  obtain ⟨hstep, hcopy, hsame⟩ := foldlM_stepAt (cells.copied_alloc _) hfold
  rw [cells.read_alloc] at hstep
  rw [middle.read_alloc]
  refine ⟨bind_ok.2 ⟨_, hstep, hcreate⟩, ?_⟩
  refine (cells.alloc_same _).trans (hsame.trans fun a ha => ?_)
  exact middle.alloc_same r a (ha.trans hcopy.2.2)

def entry (id : String) : InstructionResult Unit :=
  { id, status := .succeeded, observation := .proven, evidence := [], artifactRefs := [], rest := () }

def journalEvent (n : Nat) (instructionId : Option String) (id : String) :
    ResultJournalEvent Unit Unit :=
  { sequence := .finite n, cursor := "event:1", type := .instructionResult, instructionId,
    result := some (entry id) }

def sampleSeed (ids : List String) : ExecutionResult Unit Unit :=
  ⟨"request", none, (), ids.map entry, ⟨none, .finite 0⟩⟩

end XioFlow.Isa.Result
