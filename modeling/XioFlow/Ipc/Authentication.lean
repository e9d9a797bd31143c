/-
  XioFlow.Ipc.Authentication

  The handler is only ever called for an authenticated request.

  A request is checked twice, before and after its capability is resolved; what
  is in flight between the two has passed the first check, and the nonce is
  compared with the one for the epoch that was resolved for this request.
-/

import XioFlow.Ipc.LocalSocket

namespace XioFlow.Ipc

open Lib

/-! ## Authentication -/

/-- The request of a call carries the key of the server, and the nonce for its
    capability at the epoch that was resolved for this request. -/
def Authentic (server : LocalIpcServer) (host : Host) (call : Invocation) : Prop :=
  ∃ epoch entries, call.resolution = .bound epoch ∧ call.context.epoch = epoch ∧
    call.request.auth = some (.obj entries) ∧
    (Json.obj entries).field? "sessionKey" = some (.str server.sessionKey) ∧
    (Json.obj entries).field? "capabilityId" = some (.str call.context.capabilityId) ∧
    (Json.obj entries).field? "nonce" = some (.str call.context.nonce) ∧
    capabilityBoundNonce host.hmac server.sessionKey call.context.capabilityId epoch =
      .ok call.context.nonce

theorem hexDigit_spec {c : Char} (hc : isHexDigit c = true) :
    hexDigit c < 16 ∧ c.toNat = if hexDigit c < 10 then hexDigit c + 48 else hexDigit c + 87 := by
  have hzero : '0'.toNat = 48 := rfl
  have hnine : '9'.toNat = 57 := rfl
  have ha : 'a'.toNat = 97 := rfl
  have hf : 'f'.toNat = 102 := rfl
  unfold isHexDigit at hc
  unfold hexDigit
  rw [hzero, hnine, ha, hf] at hc
  rw [hzero, hnine, ha]
  simp only [Bool.or_eq_true, Bool.and_eq_true, decide_eq_true_eq] at hc
  split <;> split <;> omega

/-- Hexadecimal digits are determined by the bytes they spell. -/
theorem hexBytes_injective {cs ds : List Char} (hlength : cs.length = ds.length)
    (heven : 2 ∣ cs.length) (hcs : cs.all isHexDigit = true) (hds : ds.all isHexDigit = true)
    (h : hexBytes cs = hexBytes ds) : cs = ds := by
  induction cs using hexBytes.induct generalizing ds with
  | case1 high low rest ih =>
    match ds, hlength with
    | high' :: low' :: rest', hlength =>
      simp only [List.all_cons, Bool.and_eq_true] at hcs hds
      obtain ⟨hhigh, hlow, hrest⟩ := hcs
      obtain ⟨hhigh', hlow', hrest'⟩ := hds
      obtain ⟨hbyte, htail⟩ := List.cons.inj h
      have h1 := hexDigit_spec hhigh
      have h2 := hexDigit_spec hlow
      have h3 := hexDigit_spec hhigh'
      have h4 := hexDigit_spec hlow'
      have hdigits : hexDigit high = hexDigit high' ∧ hexDigit low = hexDigit low' := by omega
      obtain rfl : high = high' := by
        rw [← Char.toNat_inj, h1.2, h3.2, hdigits.1]
      obtain rfl : low = low' := by
        rw [← Char.toNat_inj, h2.2, h4.2, hdigits.2]
      simp only [List.length_cons] at hlength heven
      rw [ih (by omega) (by omega) hrest hrest' htail]
  | case2 cs hshort =>
    cases cs with
    | nil =>
      cases ds with
      | nil => rfl
      | cons => cases hlength
    | cons c cs =>
      cases cs with
      | nil =>
        rw [List.length_singleton] at heven
        omega
      | cons c' cs => exact absurd rfl (hshort c c' cs)

theorem isHexKey_iff {value : String} :
    isHexKey value = true ↔ value.toList.length = 64 ∧ value.toList.all isHexDigit = true := by
  unfold isHexKey
  rw [Bool.and_eq_true, decide_eq_true_eq]

theorem hexKey_ok {value : String} {key : List Nat} (h : hexKey value = .ok key) :
    isHexKey value = true ∧ key = hexBytes value.toList := by
  unfold hexKey at h
  split at h
  · rename_i hkey
    exact ⟨hkey, (Except.ok.inj h).symm⟩
  · cases h

/-- Keys that compare equal are the same text. -/
theorem eq_of_constantTimeHexEquals {actual expected : String}
    (h : constantTimeHexEquals actual expected = true) : actual = expected := by
  unfold constantTimeHexEquals at h
  cases hleft : hexKey actual with
  | error => simp [hleft] at h
  | ok =>
    cases hright : hexKey expected with
    | error => simp [hleft, hright] at h
    | ok =>
      simp only [hleft, hright, Bool.and_eq_true, decide_eq_true_eq] at h
      obtain ⟨hkey, rfl⟩ := hexKey_ok hleft
      obtain ⟨hkey', rfl⟩ := hexKey_ok hright
      obtain ⟨hlength, hdigits⟩ := isHexKey_iff.1 hkey
      obtain ⟨hlength', hdigits'⟩ := isHexKey_iff.1 hkey'
      apply String.toList_inj.1
      exact hexBytes_injective (by omega) (by omega) hdigits hdigits' h.2

variable {server : LocalIpcServer} {capabilityId : String}

theorem checkAuth_ok {auth : Option Json} {candidate : LocalIpcAuth}
    (h : server.checkAuth auth = .ok candidate) :
    ∃ entries, auth = some (.obj entries) ∧
      (Json.obj entries).field? "sessionKey" = some (.str server.sessionKey) ∧
      (Json.obj entries).field? "capabilityId" = some (.str candidate.capabilityId) ∧
      (Json.obj entries).field? "nonce" = some (.str candidate.nonce) := by
  unfold LocalIpcServer.checkAuth at h
  split at h
  · rename_i entries
    split at h
    · rename_i sessionKey hsession
      split at h
      · cases h
      · rename_i hequal
        have hkey : sessionKey = server.sessionKey :=
          eq_of_constantTimeHexEquals (by simpa using hequal)
        split at h
        · rename_i capabilityId hcapability
          split at h
          · cases h
          · split at h
            · rename_i nonce hnonce
              split at h
              · obtain rfl := Except.ok.inj h
                exact ⟨entries, rfl, hkey ▸ hsession, hcapability, hnonce⟩
              · cases h
            · cases h
        · cases h
    · cases h
  · cases h

theorem checkBinding_ok {hmac : Hmac} {candidate : LocalIpcAuth} {resolution : Resolution}
    {context : LocalIpcHandlerContext}
    (h : server.checkBinding hmac candidate resolution = .ok context) :
    ∃ epoch, resolution = .bound epoch ∧ context = ⟨candidate.capabilityId, epoch, candidate.nonce⟩ ∧
      capabilityBoundNonce hmac server.sessionKey candidate.capabilityId epoch =
        .ok candidate.nonce := by
  unfold LocalIpcServer.checkBinding at h
  split at h
  · cases h
  · cases h
  · rename_i epoch
    split at h
    · cases h
    · split at h
      · cases h
      · rename_i expectedNonce hexpected
        split at h
        · cases h
        · rename_i hequal
          have hnonce : candidate.nonce = expectedNonce :=
            eq_of_constantTimeHexEquals (by simpa using hequal)
          exact ⟨epoch, rfl, (Except.ok.inj h).symm, hnonce ▸ hexpected⟩

variable {epoch : Rat}

theorem capabilityBoundNonce_ok {hmac : Hmac} {sessionKey nonce : String}
    (h : capabilityBoundNonce hmac sessionKey capabilityId epoch = .ok nonce) :
    ∃ key, validEpoch epoch = true ∧ hexKey sessionKey = .ok key ∧
      nonce = hmac key (nonceMessage capabilityId epoch) := by
  unfold capabilityBoundNonce at h
  split at h
  · cases h
  · rename_i hvalid
    have hepoch : validEpoch epoch = true := by
      simp only [Bool.or_eq_true, not_or, Bool.not_eq_true', Bool.not_eq_false] at hvalid
      exact hvalid.2
    split at h
    · cases h
    · rename_i key hkey
      exact ⟨key, hepoch, hkey, (Except.ok.inj h).symm⟩

/-- The message of a nonce tells the epoch. -/
theorem nonceMessage_injective {epoch' : Rat} (hvalid : validEpoch epoch = true)
    (hvalid' : validEpoch epoch' = true)
    (h : nonceMessage capabilityId epoch = nonceMessage capabilityId epoch') : epoch = epoch' := by
  unfold validEpoch at hvalid hvalid'
  simp only [Bool.and_eq_true, decide_eq_true_eq] at hvalid hvalid'
  unfold nonceMessage at h
  have hlist := congrArg String.toList h
  simp only [String.toList_append, String.toList_ofList] at hlist
  have hdigits := digitsOf_injective (List.append_cancel_left hlist)
  have hnum : epoch.num = epoch'.num := by omega
  exact Rat.ext hnum (hvalid.1.1.trans hvalid'.1.1.symm)

/-- What is in flight has been checked, and what was called was authentic. -/
structure Checked (server : LocalIpcServer) (host : Host) (c : Connection) : Prop where
  tasks : ∀ request candidate, Task.resolving request candidate ∈ c.tasks →
    server.checkAuth request.auth = .ok candidate
  calls : ∀ call ∈ c.invocations, Authentic server host call

section Checked

variable {server : LocalIpcServer} {host : Host} {c : Connection}

theorem Checked.progress (h : Checked server host c) {tasks : List Task}
    (hsub : ∀ task ∈ tasks, task ∈ c.tasks) {p : Progress}
    (htasks : ∀ request candidate, Task.resolving request candidate ∈ p.tasks →
      server.checkAuth request.auth = .ok candidate)
    (hcalls : ∀ call ∈ p.invocations, Authentic server host call) :
    Checked server host (c.progress tasks p) := by
  refine ⟨fun request candidate hmem => ?_, fun call hmem => ?_⟩
  · rcases List.mem_append.1 hmem with hmem | hmem
    · exact h.tasks request candidate (hsub _ hmem)
    · exact htasks request candidate hmem
  · rcases List.mem_append.1 hmem with hmem | hmem
    · exact h.calls call hmem
    · exact hcalls call hmem

theorem Checked.handleLine (h : Checked server host c) (line : Text) :
    Checked server host (c.progress c.tasks (server.handleLine host line)) := by
  refine h.progress (fun _ hmem => hmem) ?_ ?_
  · unfold LocalIpcServer.handleLine
    split
    · split
      · exact fun _ _ hmem => absurd hmem List.not_mem_nil
      · split
        · exact fun _ _ hmem => absurd hmem List.not_mem_nil
        · rename_i hauth
          intro request candidate hmem
          obtain ⟨rfl, rfl⟩ := Task.resolving.inj (List.mem_singleton.1 hmem)
          exact hauth
    · exact fun _ _ hmem => absurd hmem List.not_mem_nil
  · -- no handler is called before the capability is resolved
    have hnone : (server.handleLine host line).invocations = [] := by
      unfold LocalIpcServer.handleLine
      split
      · split
        · rfl
        · split <;> rfl
      · rfl
    rw [hnone]
    exact fun _ hmem => absurd hmem List.not_mem_nil

theorem Checked.handleLines (h : Checked server host c) (lines : List Text) :
    Checked server host (c.handleLines server host lines) := by
  induction lines generalizing c with
  | nil => exact h
  | cons line lines ih => exact ih (h.handleLine line)

theorem Checked.after (e : Event) (h : Checked server host c) :
    Checked server host (c.after server host e) := by
  cases e with
  | data =>
    unfold Connection.after Connection.onData
    simp only
    split
    · exact h
    · split
      · exact ⟨h.tasks, h.calls⟩
      · apply Checked.handleLines
        exact ⟨h.tasks, h.calls⟩
  | resolved =>
    unfold Connection.after
    simp only
    split
    · rename_i request candidate htask
      obtain ⟨hi, heq⟩ := List.getElem?_eq_some_iff.1 htask
      have hauth := h.tasks request candidate (heq ▸ List.getElem_mem hi)
      refine h.progress (fun _ hmem => List.mem_of_mem_eraseIdx hmem) ?_ ?_
      · unfold LocalIpcServer.onResolution
        split
        · exact fun _ _ hmem => absurd hmem List.not_mem_nil
        · intro request' candidate' hmem
          cases List.mem_singleton.1 hmem
      · unfold LocalIpcServer.onResolution
        split
        · exact fun _ hmem => absurd hmem List.not_mem_nil
        · rename_i context hbinding
          intro call hmem
          obtain rfl := List.mem_singleton.1 hmem
          obtain ⟨epoch, hbound, rfl, hnonce⟩ := checkBinding_ok hbinding
          obtain ⟨entries, hentries, hsession, hcapability, hfield⟩ := checkAuth_ok hauth
          exact ⟨epoch, entries, hbound, rfl, hentries, hsession, hcapability, hfield, hnonce⟩
    · exact h
  | settled =>
    unfold Connection.after
    simp only
    split
    · exact h.progress (fun _ hmem => List.mem_of_mem_eraseIdx hmem)
        (fun _ _ hmem => absurd hmem List.not_mem_nil)
        (fun _ hmem => absurd hmem List.not_mem_nil)
    · exact h

end Checked

theorem calls_authentic (server : LocalIpcServer) (host : Host) (events : List Event) :
    ∀ call ∈ (afterAll (Connection.after server host) {} events).invocations,
      Authentic server host call := by
  have hstart : Checked server host {} :=
    ⟨fun _ _ hmem => absurd hmem List.not_mem_nil, fun _ hmem => absurd hmem List.not_mem_nil⟩
  have hend : Checked server host (afterAll (Connection.after server host) {} events) :=
    afterAll_invariant (fun c e hc => hc.after e) hstart events
  exact hend.calls

/-- Credentials of a session are taken only in that session, at the epoch they
    were made for. -/
theorem Authentic.prepared {host : Host} {call : Invocation} (h : Authentic server host call)
    (hunforgeable : ∀ key message message', host.hmac key message = host.hmac key message' →
      message = message') {other : LocalIpcServer} {auth : LocalIpcAuth}
    (hauth : other.credentials host.hmac capabilityId epoch = .ok auth)
    (hsent : call.request.auth = some auth.toJson) :
    other.sessionKey = server.sessionKey ∧ call.resolution = .bound epoch := by
  obtain ⟨epoch', entries, hbound, -, hentries, hsession, hcapability, hnonce, hmac⟩ := h
  have hjson : Json.obj entries = auth.toJson := Option.some.inj (hentries.symm.trans hsent)
  rw [hjson] at hsession hcapability hnonce
  have hkey : auth.sessionKey = server.sessionKey := Json.str.inj (Option.some.inj hsession)
  have hid : auth.capabilityId = call.context.capabilityId :=
    Json.str.inj (Option.some.inj hcapability)
  have hmade : auth.nonce = call.context.nonce := Json.str.inj (Option.some.inj hnonce)
  unfold LocalIpcServer.credentials at hauth
  split at hauth
  · cases hauth
  · rename_i nonce hother
    obtain rfl := Except.ok.inj hauth
    have hsame : other.sessionKey = server.sessionKey := hkey
    have hid' : capabilityId = call.context.capabilityId := hid
    have hmade' : nonce = call.context.nonce := hmade
    refine ⟨hsame, ?_⟩
    rw [hsame, hid', hmade'] at hother
    obtain ⟨key, hvalid, hother⟩ := capabilityBoundNonce_ok hother
    obtain ⟨key', hvalid', hmac⟩ := capabilityBoundNonce_ok hmac
    have hkeys : key = key' := by
      have := hother.1.symm.trans hmac.1
      exact Except.ok.inj this
    subst hkeys
    have hmessages := hunforgeable key _ _ (hother.2.symm.trans hmac.2)
    rw [hbound, nonceMessage_injective hvalid hvalid' hmessages]

theorem resolveDomainCapability_bound {getCapability : String → Option Capability}
    {now : Timestamp} (h : resolveDomainCapability getCapability now capabilityId = .bound epoch) :
    ∃ capability, getCapability capabilityId = some capability ∧ epoch = capability.epoch ∧
      capability.revokedAt = none ∧ now < capability.expiresAt := by
  unfold resolveDomainCapability at h
  split at h
  · cases h
  · rename_i capability hget
    split at h
    · cases h
    · rename_i hvalid
      simp only [Bool.or_eq_true, not_or, Bool.not_eq_true, Option.isSome_eq_false_iff,
        Option.isNone_iff_eq_none, decide_eq_true_eq, Nat.not_le] at hvalid
      exact ⟨capability, hget, (Resolution.bound.inj h).symm, hvalid.1, hvalid.2⟩

end XioFlow.Ipc
