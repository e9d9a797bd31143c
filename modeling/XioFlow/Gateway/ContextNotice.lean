/-
  XioFlow.Gateway.ContextNotice

  Notices that the proxy adds to a request, and the digest of a conversation
  that should not see them.

  `injectContextNotice` appends a notice to the last text of the last item, as
  far as the protocol's form of that item is one that it knows.
  `normalizeConversationForDigest` strikes notices out of the JSON of the
  conversation: from each mark to the next closing bracket.
-/

import XioFlow.Lib.Bracketed
import XioFlow.Lib.JsonSite
import XioFlow.Wire.Access

namespace XioFlow.Gateway

open Lib Lib.JsonText Wire

/-! ## The notices of `lookup` -/

/-- `text.split('\n')` -/
def linesOf (text : Utf16) : List Utf16 := text.splitOn (unit '\n')

/-- `- L1: text` or `+ L1: text` -/
def diffLine (sign : String) (i : Nat) (line : Utf16) : Utf16 :=
  units sign ++ units " L" ++ decimal (i + 1) ++ units ": " ++ trim line

/-- The loop over the lines from the `i`-th on; it ends early with eight lines. -/
def diffLoop : Nat → Nat → List Utf16 → List Utf16 → List Utf16 → List Utf16 →
    List Utf16 × List Utf16
  | 0, _, _, _, removed, added => (removed, added)
  | left + 1, i, old, new, removed, added =>
    let o := old.head?
    let n := new.head?
    let removed := if o = n then removed else removed ++ (o.map (diffLine "-" i)).toList
    let added := if o = n then added else added ++ (n.map (diffLine "+" i)).toList
    if removed.length + added.length ≥ 8 then (removed, added)
    else diffLoop left (i + 1) old.tail new.tail removed added

def joined (sep : String) (texts : List Utf16) : Utf16 := (units sep).intercalate texts

/-- What every notice begins with. -/
def opening : Utf16 := units "[xioflow: "

def buildCompactLineDiff (oldText : Option Utf16) (newText relPath : Utf16) : Utf16 :=
  match oldText with
  | none => opening ++ (units "context stale — " ++ relPath ++ units " was modified externally" ++
      [unit ']'])
  | some oldText =>
    let oldLines := linesOf oldText
    let newLines := linesOf newText
    let (removed, added) :=
      diffLoop (max oldLines.length newLines.length) 0 oldLines newLines [] []
    let diffPreview := joined "\n" (removed.take 4 ++ added.take 4)
    opening ++ (units "context stale — \"" ++ relPath ++
      units "\" changed since earlier observation:\n" ++ diffPreview ++ units "\n" ++ [unit ']'])

def removedNotice (removed : List Utf16) : Utf16 :=
  opening ++ (units "discovery set changed — removed entries: " ++ joined ", " removed ++ [unit ']'])

def deltaNotice (added : List Utf16) : Utf16 :=
  opening ++ (units "additive workspace discovery delta — new files added since cached turn: " ++
    joined ", " added ++ [unit ']'])

/-- What `lookup` returns as a stale or as a delta notice. -/
inductive LookupNotice : Utf16 → Prop
  | stale (reads : List (Option Utf16 × Utf16 × Utf16)) (h : reads ≠ []) :
      LookupNotice (joined "\n" (reads.map fun r => buildCompactLineDiff r.1 r.2.1 r.2.2))
  | removed (entries : List Utf16) : LookupNotice (removedNotice entries)
  | delta (discoveries : List (List Utf16)) (h : discoveries ≠ []) :
      LookupNotice (joined "\n" (discoveries.map deltaNotice))

/-! ## `injectContextNotice` -/

mutual

/-- `${v}`; an object with a `toString` of its own throws. -/
def templateText : Value → Option Utf16
  | .null => some (units "null")
  | .bool b => some (units (if b then "true" else "false"))
  | .num n => some n.text
  | .str s => some s
  | .arr items => (templateItems items).map commaSeparated
  | .obj entries =>
    if (lookup (units "toString") entries).isSome then none else some (units "[object Object]")

/-- The items as `join` writes them: `null` is empty. -/
def templateItems : List Value → Option (List Utf16)
  | [] => some []
  | .null :: vs => (templateItems vs).map ([] :: ·)
  | v :: vs =>
    match templateText v, templateItems vs with
    | some text, some texts => some (text :: texts)
    | _, _ => none

end

/-- `object[name]` where it is neither missing nor `null` -/
def present (name : String) (entries : List (Utf16 × Value)) : Option Value :=
  match lookup (units name) entries with
  | some .null => none
  | found => found

def geminiResponseText : Value → Utf16
  | .str s => s
  | .arr items => stringify (.arr items)
  | .obj entries =>
    match (present "output" entries).orElse fun _ => (present "error" entries).orElse fun _ =>
        present "content" entries with
    | some (.str s) => s
    | some v => stringify v
    | none => stringify (.obj entries)
  | _ => []

/-- What is added to a text: `\n\n` and the notice. -/
def added (notice : Utf16) : Utf16 := units "\n\n" ++ notice

/-- The last block of a message with the notice; `none` where the source throws. -/
def injectBlock (notice : Utf16) (lastBlock : Value) : Option Value :=
  match lastBlock with
  | .null => none
  | _ =>
    match prop "text" lastBlock with
    | some (text, .str s) => some (text.put (.str (s ++ added notice)))
    | _ =>
      match prop "content" lastBlock with
      | some (content, .str s) => some (content.put (.str (s ++ added notice)))
      | _ => some lastBlock

/-- The last message of a chat or Anthropic request with the notice. -/
def injectMessage (notice : Utf16) (last : Value) : Option Value :=
  match prop "content" last with
  | some (content, .str s) => some (content.put (.str (s ++ added notice)))
  | some (content, .arr blocks) =>
    match lastItem blocks with
    | some (item, lastBlock) => (injectBlock notice lastBlock).map fun v => content.put (item.put v)
    | none => some last
  | _ => some last

/-- The last input item of a `responses` request with the notice. -/
def injectInput (notice : Utf16) (last : Value) : Option Value :=
  match prop "output" last with
  | some (output, .str s) => some (output.put (.str (s ++ added notice)))
  | _ => some last

/-- A part without a text: its function response, if it has one. -/
def injectResponse (notice : Utf16) (lastPart : Value) : Value :=
  match prop "functionResponse" lastPart with
  | none => lastPart
  | some (functionResponse, v) =>
    match prop "response" v with
    | none => lastPart
    | some (response, v) =>
      if truthy (some v) then
        functionResponse.put (response.put
          (.obj [(units "output", .str (geminiResponseText v ++ added notice))]))
      else lastPart

def injectPart (notice : Utf16) (lastPart : Value) : Option Value :=
  match prop "text" lastPart with
  | some (text, v) =>
    if truthy (some v) then (templateText v).map fun s => text.put (.str (s ++ added notice))
    else some (injectResponse notice lastPart)
  | none => some (injectResponse notice lastPart)

/-- The last content of a Gemini request with the notice. -/
def injectContent (notice : Utf16) (last : Value) : Option Value :=
  match prop "parts" last with
  | some (parts, .arr items) =>
    match lastItem items with
    | some (item, lastPart) => (injectPart notice lastPart).map fun v => parts.put (item.put v)
    | none => some last
  -- the last character of a string has neither a text nor a response
  | none | some (_, .null) | some (_, .str _) => some last
  | _ => none

def injectLast : WireProtocolName → Utf16 → Value → Option Value
  | .chatCompletions => injectMessage
  | .anthropic => injectMessage
  | .responses => injectInput
  | .gemini => injectContent

/-- Where the conversation is in the body of a request. -/
def conversationKey : WireProtocolName → String
  | .chatCompletions => "messages"
  | .anthropic => "messages"
  | .responses => "input"
  | .gemini => "contents"

/-- `parsed.conversation` -/
def conversation (wire : WireProtocolName) (body : Value) : List Value :=
  match prop (conversationKey wire) body with
  | some (_, .arr items) => items
  | _ => []

/-- The body after the call; `none` where it throws. -/
def injectContextNotice (wire : WireProtocolName) (body : Value) (notice : Utf16) : Option Value :=
  if notice = [] then some body
  else
    match prop (conversationKey wire) body with
    | some (frame, .arr items) =>
      match lastItem items with
      | some (item, last) => (injectLast wire notice last).map fun v => frame.put (item.put v)
      | none => some body
    | _ => some body

/-! ## The digest of a conversation -/

/-- What the pattern of `normalizeConversationForDigest` begins with. -/
def mark : Utf16 := units "\\n\\n[xioflow: "

/-- `JSON.stringify(conversation)` without what the pattern matches. -/
def cleaned (conversation : List Value) : Utf16 :=
  Bracketed.strike mark (unit ']') false (stringify (.arr conversation))

/-- The digest is the first half of a SHA-256. -/
def normalizeConversationForDigest (digest : Utf16 → Utf16) (conversation : List Value) : Utf16 :=
  digest (cleaned conversation)

/-! ## Recorded turns -/

/-- A turn of the cache: what `lookup` compares, and the turn itself. -/
structure CachedTurnEntry (τ : Type) where
  turnIndex : Nat
  wire : WireProtocolName
  prefixDigest : Utf16
  stamped : Bool
  toolCallsSig : Utf16
  turn : τ

variable {τ : Type}

/-- The first comparison of `lookup`, which is that of `recordTurn` too. -/
def CachedTurnEntry.keyed (wire : WireProtocolName) (turnIndex : Nat) (prefixDigest : Utf16)
    (e : CachedTurnEntry τ) : Bool :=
  e.wire = wire && e.turnIndex = turnIndex && e.prefixDigest = prefixDigest

/-- The entry that `lookup` goes on with; the signature is that of the request's tool calls, if it
    has any. -/
def candidate (entries : List (CachedTurnEntry τ)) (wire : WireProtocolName) (turnIndex : Nat)
    (prefixDigest : Utf16) (currentSig : Option Utf16) : Option (CachedTurnEntry τ) :=
  (entries.find? (·.keyed wire turnIndex prefixDigest)).orElse fun _ =>
    (entries.find? fun e => e.wire = wire && e.prefixDigest = prefixDigest).orElse fun _ =>
      currentSig.bind fun sig => entries.find? fun e =>
        e.wire = wire && e.turnIndex = turnIndex && e.stamped && e.toolCallsSig = sig

/-- The entries after `recordTurn`: an entry of the same key is replaced. -/
def recordTurn (entry : CachedTurnEntry τ) : List (CachedTurnEntry τ) → List (CachedTurnEntry τ)
  | [] => [entry]
  | e :: es =>
    if e.keyed entry.wire entry.turnIndex entry.prefixDigest then entry :: es
    else e :: recordTurn entry es

/-! ## What is promised of a notice -/

/-- The notice is in the last item of the conversation, once, and nothing else is different. -/
def Delivered (wire : WireProtocolName) (body : Value) (notice : Utf16) (body' : Value) : Prop :=
  ∃ frame init last last', prop (conversationKey wire) body = some (frame, .arr (init ++ [last])) ∧
    Appended (added notice) last last' ∧ body' = frame.put (.arr (init ++ [last']))

/-- The notice is delivered, the digest does not see it, and the turn that is recorded afterwards is
    found by a lookup of the conversation as it was. -/
def Unseen (digest : Utf16 → Utf16) (τ : Type) (wire : WireProtocolName) (body : Value)
    (notice : Utf16) : Prop :=
  ∃ body', injectContextNotice wire body notice = some body' ∧ Delivered wire body notice body' ∧
    normalizeConversationForDigest digest (conversation wire body') =
      normalizeConversationForDigest digest (conversation wire body) ∧
    ∀ (entries : List (CachedTurnEntry τ)) (entry : CachedTurnEntry τ) (currentSig : Option Utf16),
      entry.wire = wire →
      entry.prefixDigest = normalizeConversationForDigest digest (conversation wire body') →
      candidate (recordTurn entry entries) wire entry.turnIndex
        (normalizeConversationForDigest digest (conversation wire body)) currentSig = some entry

/-! ## Where a notice goes -/

def blockSite (lastBlock : Value) : Option (Site × Utf16) :=
  match prop "text" lastBlock with
  | some (text, .str s) => some ([text], s)
  | _ =>
    match prop "content" lastBlock with
    | some (content, .str s) => some ([content], s)
    | _ => none

/-- The text of the last message that takes the notice. -/
def messageSite (last : Value) : Option (Site × Utf16) :=
  match prop "content" last with
  | some (content, .str s) => some ([content], s)
  | some (content, .arr blocks) =>
    match lastItem blocks with
    | some (item, lastBlock) => (blockSite lastBlock).map fun p => (content :: item :: p.1, p.2)
    | none => none
  | _ => none

def inputSite (last : Value) : Option (Site × Utf16) :=
  match prop "output" last with
  | some (output, .str s) => some ([output], s)
  | _ => none

/-- The text of a response that is `{ output }` with a string, and nothing else. -/
def outputText : Value → Option Utf16
  | .obj [(key, .str s)] => if key = units "output" then some s else none
  | _ => none

/-- Only such a response takes the notice and stays what it is. -/
def responseSite (lastPart : Value) : Option (Site × Utf16) :=
  match prop "functionResponse" lastPart with
  | none => none
  | some (functionResponse, v) =>
    match prop "response" v with
    | none => none
    | some (response, r) =>
      (outputText r).map fun s => ([functionResponse, response, .entry [] (units "output") []], s)

def partSite (lastPart : Value) : Option (Site × Utf16) :=
  match prop "text" lastPart with
  | some (text, .str s) => if s = [] then responseSite lastPart else some ([text], s)
  | some (_, v) => if truthy (some v) then none else responseSite lastPart
  | none => responseSite lastPart

def contentSite (last : Value) : Option (Site × Utf16) :=
  match prop "parts" last with
  | some (parts, .arr items) =>
    match lastItem items with
    | some (item, lastPart) => (partSite lastPart).map fun p => (parts :: item :: p.1, p.2)
    | none => none
  | _ => none

def noticeSite : WireProtocolName → Value → Option (Site × Utf16)
  | .chatCompletions => messageSite
  | .anthropic => messageSite
  | .responses => inputSite
  | .gemini => contentSite

/-- The text of a conversation before the place where a notice goes. -/
def textBefore (init : List Value) (site : Site) (s : Utf16) : Utf16 :=
  front (.item init [] :: site) ++ unit '"' :: quoteBody s

/-- The notice is one passage, or several with a blank line between them: its only closing brackets
    end one. -/
def Closed (notice : Utf16) : Prop :=
  ∃ inner : List Utf16, (∀ a ∈ inner, unit ']' ∉ a) ∧
    added notice = Bracketed.passages (added opening) (unit ']') inner

/-- The last item has a text that takes the notice, no earlier text has an open mark, and the notice
    is closed. -/
def Deliverable (wire : WireProtocolName) (body : Value) (notice : Utf16) : Prop :=
  ∃ frame init last site s, prop (conversationKey wire) body = some (frame, .arr (init ++ [last])) ∧
    noticeSite wire last = some (site, s) ∧
    ¬ Bracketed.Open mark (unit ']') (textBefore init site s) ∧ Closed notice

/-! ## The item that takes a notice -/

theorem added_ne_nil (notice : Utf16) : added notice ≠ [] := by
  have h : units "\n\n" ≠ [] := by decide
  exact List.append_ne_nil_of_left_ne_nil h _

/-- A value takes the notice at the site, if there is one; otherwise it stays as it is, or is no
    longer of the same shape. -/
structure TakenAt (notice : Utf16) (site? : Option (Site × Utf16)) (v : Value) (v' : Option Value) :
    Prop where
  here : ∀ site s, site? = some (site, s) →
    v = put site (.str s) ∧ v' = some (put site (.str (s ++ added notice)))
  nowhere : site? = none → ∀ w, v' = some w → w = v ∨ shape v ≠ shape w

theorem TakenAt.unchanged (notice : Utf16) (v : Value) : TakenAt notice none v (some v) :=
  ⟨nofun, fun _ _ h => .inl (Option.some.inj h).symm⟩

theorem TakenAt.throws (notice : Utf16) (v : Value) : TakenAt notice none v none :=
  ⟨nofun, nofun⟩

variable {notice : Utf16}

theorem TakenAt.reshaped {v w : Value} (h : shape v ≠ shape w) : TakenAt notice none v (some w) :=
  ⟨nofun, fun _ _ hw => .inr (Option.some.inj hw ▸ h)⟩

theorem TakenAt.string {s : Utf16} {v : Value} {frame : Frame} (h : v = frame.put (.str s)) :
    TakenAt notice (some ([frame], s)) v (some (frame.put (.str (s ++ added notice)))) := by
  refine ⟨fun site s' hsite => ?_, nofun⟩
  cases hsite
  exact ⟨h, rfl⟩

/-- What is taken inside a frame is taken in the whole. -/
theorem TakenAt.framed {site? : Option (Site × Utf16)} {v : Value} {v' : Option Value}
    (h : TakenAt notice site? v v') (frame : Frame) :
    TakenAt notice (site?.map fun p => (frame :: p.1, p.2)) (frame.put v) (v'.map frame.put) := by
  constructor
  · intro site s hsite
    obtain ⟨p, hp, heq⟩ := Option.map_eq_some_iff.1 hsite
    cases heq
    obtain ⟨hv, hv'⟩ := h.here p.1 p.2 hp
    exact ⟨congrArg frame.put hv, by rw [hv']; rfl⟩
  · intro hnone w hw
    obtain ⟨u, hu, rfl⟩ := Option.map_eq_some_iff.1 hw
    obtain rfl | hshape := h.nowhere (Option.map_eq_none_iff.1 hnone) u hu
    · exact .inl rfl
    · exact .inr fun heq => hshape ((shape_put_inj [frame]).1 heq)

theorem block_taken (notice : Utf16) (lastBlock : Value) :
    TakenAt notice (blockSite lastBlock) lastBlock (injectBlock notice lastBlock) := by
  cases lastBlock with
  | null => exact .throws notice _
  | bool | num | str | arr => exact .unchanged notice _
  | obj =>
    unfold blockSite injectBlock
    simp only
    split
    · rename_i text s htext
      exact .string (put_prop htext)
    · rename_i hno
      split
      · rename_i content s hcontent
        exact .string (put_prop hcontent)
      · exact .unchanged notice _

theorem message_taken (notice : Utf16) (last : Value) :
    TakenAt notice (messageSite last) last (injectMessage notice last) := by
  unfold messageSite injectMessage
  split
  · rename_i content s hcontent
    exact .string (put_prop hcontent)
  · rename_i content blocks hcontent
    cases hitem : lastItem blocks with
    | none => exact .unchanged notice last
    | some p =>
      obtain ⟨item, lastBlock⟩ := p
      have hlast : last = content.put (item.put lastBlock) := by
        rw [← put_lastItem hitem]
        exact put_prop hcontent
      have htaken := ((block_taken notice lastBlock).framed item).framed content
      rw [Option.map_map, Option.map_map] at htaken
      rw [hlast]
      exact htaken
  · exact .unchanged notice last

theorem input_taken (notice : Utf16) (last : Value) :
    TakenAt notice (inputSite last) last (injectInput notice last) := by
  unfold inputSite injectInput
  split
  · rename_i output s houtput
    exact .string (put_prop houtput)
  · exact .unchanged notice last

/-! ### Gemini -/

theorem outputText_eq_some {r : Value} {s : Utf16} (h : outputText r = some s) :
    r = .obj [(units "output", .str s)] := by
  unfold outputText at h
  split at h
  · rename_i key t
    split at h
    · rename_i hkey
      cases h
      rw [hkey]
    · cases h
  · cases h

/-- A response that does not take the notice has another shape than what is put in its place. -/
theorem shape_ne_of_outputText {r : Value} (h : outputText r = none) (s : Utf16) :
    shape r ≠ shape (.obj [(units "output", .str s)]) := by
  intro hshape
  cases r with
  | null | bool | num | str | arr => cases hshape
  | obj =>
    simp only [shape, shapeEntries_eq_map, Value.obj.injEq, List.map_cons, List.map_nil] at hshape
    obtain ⟨⟨key, w⟩, rfl, he⟩ := List.map_eq_singleton_iff.1 hshape
    obtain ⟨rfl, hw⟩ := Prod.mk.inj he
    cases w with
    | null | bool | num | arr | obj => cases hw
    | str => simp [outputText] at h

theorem response_taken (notice : Utf16) (lastPart : Value) :
    TakenAt notice (responseSite lastPart) lastPart (some (injectResponse notice lastPart)) := by
  unfold responseSite injectResponse
  cases hfunction : prop "functionResponse" lastPart with
  | none => exact .unchanged notice lastPart
  | some p =>
    obtain ⟨functionResponse, v⟩ := p
    simp only
    cases hresponse : prop "response" v with
    | none => exact .unchanged notice lastPart
    | some q =>
      obtain ⟨response, r⟩ := q
      have hlast : lastPart = functionResponse.put (response.put r) := by
        rw [← put_prop hresponse]
        exact put_prop hfunction
      simp only
      cases houtput : outputText r with
      | some s =>
        obtain rfl := outputText_eq_some houtput
        have hprev : geminiResponseText (.obj [(units "output", .str s)]) = s := by
          simp [geminiResponseText, present, lookup]
        have htruthy : truthy (some (.obj [(units "output", .str s)])) = true := rfl
        refine ⟨fun site t hsite => ?_, nofun⟩
        cases hsite
        rw [if_pos htruthy, hprev]
        exact ⟨hlast, rfl⟩
      | none =>
        split
        · refine .reshaped fun hshape => ?_
          rw [hlast] at hshape
          exact shape_ne_of_outputText houtput _
            ((shape_put_inj [functionResponse, response]).1 hshape)
        · exact .unchanged notice lastPart

theorem part_taken (notice : Utf16) (lastPart : Value) :
    TakenAt notice (partSite lastPart) lastPart (injectPart notice lastPart) := by
  unfold partSite injectPart
  cases htext : prop "text" lastPart with
  | none => exact response_taken notice lastPart
  | some p =>
    obtain ⟨text, v⟩ := p
    cases v with
    | str s =>
      by_cases hs : s = []
      · subst hs
        exact response_taken notice lastPart
      · simp only [truthy, hs, ne_eq, not_false_eq_true, decide_true, if_true, if_false]
        exact .string (put_prop htext)
    | null | bool | num | arr | obj =>
      simp only
      split
      · cases hs : templateText _ with
        | none => exact .throws notice lastPart
        | some =>
          refine .reshaped fun hshape => ?_
          rw [put_prop htext] at hshape
          cases (shape_put_inj [text]).1 hshape
      · exact response_taken notice lastPart

theorem content_taken (notice : Utf16) (last : Value) :
    TakenAt notice (contentSite last) last (injectContent notice last) := by
  unfold contentSite injectContent
  cases hparts : prop "parts" last with
  | none => exact .unchanged notice last
  | some p =>
    obtain ⟨parts, v⟩ := p
    cases v with
    | arr items =>
      simp only
      cases hitem : lastItem items with
      | none => exact .unchanged notice last
      | some q =>
        obtain ⟨item, lastPart⟩ := q
        have hlast : last = parts.put (item.put lastPart) := by
          rw [← put_lastItem hitem]
          exact put_prop hparts
        have htaken := ((part_taken notice lastPart).framed item).framed parts
        rw [Option.map_map, Option.map_map] at htaken
        rw [hlast]
        exact htaken
    | null | str => exact .unchanged notice last
    | bool | num | obj => exact .throws notice last

theorem last_taken (wire : WireProtocolName) (notice : Utf16) (last : Value) :
    TakenAt notice (noticeSite wire last) last (injectLast wire notice last) := by
  cases wire with
  | chatCompletions | anthropic => exact message_taken notice last
  | responses => exact input_taken notice last
  | gemini => exact content_taken notice last

/-! ## The text of a notice -/

/-- A notice begins with the opening and ends with a closing bracket. -/
def Framed (notice : Utf16) : Prop := ∃ mid, notice = opening ++ (mid ++ [unit ']'])

theorem framed_compactLineDiff (oldText : Option Utf16) (newText relPath : Utf16) :
    Framed (buildCompactLineDiff oldText newText relPath) := by
  cases oldText with
  | none | some => exact ⟨_, rfl⟩

theorem framed_joined {notices : List Utf16} (hne : notices ≠ [])
    (h : ∀ notice ∈ notices, Framed notice) : Framed (joined "\n" notices) := by
  induction notices with
  | nil => exact absurd rfl hne
  | cons first rest ih =>
    obtain ⟨mid, hmid⟩ := h first List.mem_cons_self
    cases rest with
    | nil => exact ⟨mid, by simpa [joined] using hmid⟩
    | cons second rest =>
      obtain ⟨mid', hmid'⟩ :=
        ih (List.cons_ne_nil _ _) fun n hn => h n (List.mem_cons_of_mem first hn)
      refine ⟨mid ++ [unit ']'] ++ units "\n" ++ (opening ++ mid'), ?_⟩
      have hsplit : joined "\n" (first :: second :: rest) =
          first ++ (units "\n" ++ joined "\n" (second :: rest)) := by
        simp [joined, List.intercalate, List.intersperse]
      rw [hsplit, hmid', hmid]
      simp only [List.append_assoc]

theorem LookupNotice.framed (h : LookupNotice notice) : Framed notice := by
  cases h with
  | stale reads hne =>
    refine framed_joined (by simpa using hne) fun n hn => ?_
    obtain ⟨r, -, rfl⟩ := List.mem_map.1 hn
    exact framed_compactLineDiff _ _ _
  | removed => exact ⟨_, rfl⟩
  | delta discoveries hne =>
    refine framed_joined (by simpa using hne) fun n hn => ?_
    obtain ⟨d, -, rfl⟩ := List.mem_map.1 hn
    exact ⟨_, rfl⟩

/-- What the pattern looks for is how the opening is written in JSON. -/
theorem quoteBody_opening : quoteBody (added opening) = mark := by decide

theorem opening_plain : ∀ u ∈ added opening, u.isSurrogate = false := by
  have hall : (added opening).all (fun u => !u.isSurrogate) = true := by decide
  simpa using hall

theorem mark_ne_nil : mark ≠ [] := by decide

theorem bracket_notMem_mark : unit ']' ∉ mark := by decide

theorem mark_borderless : Bracketed.Borderless mark := by
  have hall : ∀ k : Fin mark.length, 0 < k.val → ¬ mark.drop k.val <+: mark := by decide
  exact fun k hpos hlt => hall ⟨k, hlt⟩ hpos

/-- A passage of a text is written as a passage. -/
theorem quoteBody_passage (a rest : Utf16) :
    quoteBody (added opening ++ (a ++ unit ']' :: rest)) =
      mark ++ (quoteBody a ++ unit ']' :: quoteBody rest) := by
  have hlast : (added opening).getLast? = some (unit ' ') := by decide
  rw [quoteBody_append, quoteBody_opening, quoteBody_bracket]
  intro u hu v _
  rw [hlast] at hu
  cases hu
  exact .inl (by decide)

/-- A notice is made of passages exactly when its JSON is. -/
theorem closed_iff (text : Utf16) :
    (∃ inner : List Utf16, (∀ a ∈ inner, unit ']' ∉ a) ∧
        text = Bracketed.passages (added opening) (unit ']') inner) ↔
      ∃ inner : List Utf16, (∀ a ∈ inner, unit ']' ∉ a) ∧
        quoteBody text = Bracketed.passages mark (unit ']') inner := by
  constructor
  · rintro ⟨inner, hinner, rfl⟩
    refine ⟨inner.map quoteBody, ?_, ?_⟩
    · intro b hb
      obtain ⟨a, ha, rfl⟩ := List.mem_map.1 hb
      exact fun hmem => hinner a ha (mem_of_bracket_quoteBody hmem)
    · induction inner with
      | nil => rfl
      | cons a inner ih =>
        rw [Bracketed.passages_cons, quoteBody_passage, ih fun b hb => hinner b (.tail a hb),
          List.map_cons, Bracketed.passages_cons]
  · rintro ⟨inner, hinner, htext⟩
    induction inner generalizing text with
    | nil => exact ⟨[], nofun, quoteBody_eq_nil htext⟩
    | cons b inner ih =>
      rw [Bracketed.passages_cons, ← quoteBody_opening] at htext
      obtain ⟨rest, rfl, hrest⟩ := quoteBody_eq_append opening_plain htext
      have hb := hinner b List.mem_cons_self
      have hmem : unit ']' ∈ rest :=
        mem_of_bracket_quoteBody (by rw [← hrest]; simp)
      obtain ⟨a, rest, rfl, ha⟩ := List.eq_append_cons_of_mem hmem
      rw [quoteBody_bracket] at hrest
      obtain ⟨-, hlater⟩ := Bracketed.append_closer_inj hb
        (fun h => ha (mem_of_bracket_quoteBody h)) hrest
      obtain ⟨inner', hinner', hpassages⟩ :=
        ih rest (fun c hc => hinner c (.tail b hc)) hlater.symm
      refine ⟨a :: inner', ?_, ?_⟩
      · intro c hc
        obtain rfl | hc := List.mem_cons.1 hc
        · exact ha
        · exact hinner' c hc
      · rw [Bracketed.passages_cons, hpassages]

/-! ## The digest and the notice -/

theorem stringify_conversation (init : List Value) (site : Site) (s : Utf16) :
    ∃ next, unit ']' ∈ next ∧ ∀ t, stringify (.arr (init ++ [put site (.str (s ++ t))])) =
      front (.item init [] :: site) ++ unit '"' :: (quoteBody (s ++ t) ++ unit '"' :: next) := by
  refine ⟨back (.item init [] :: site), ?_, fun t => ?_⟩
  · exact List.mem_append_right _ (List.mem_append_right _ List.mem_cons_self)
  · exact stringify_put_str (.item init [] :: site) (s ++ t)

/-- The digest's text does not change exactly when no mark is open before the notice and the notice
    is closed. -/
theorem cleaned_eq_iff (hframed : Framed notice) (init : List Value) (site : Site) (s : Utf16) :
    cleaned (init ++ [put site (.str (s ++ added notice))]) = cleaned (init ++ [put site (.str s)]) ↔
      ¬ Bracketed.Open mark (unit ']') (textBefore init site s) ∧ Closed notice := by
  obtain ⟨mid, hmid⟩ := hframed
  obtain ⟨next, hnext, htext⟩ := stringify_conversation init site s
  have hadded : quoteBody (added notice) = mark ++ (quoteBody mid ++ [unit ']']) := by
    have h := quoteBody_passage mid []
    rw [quoteBody] at h
    rw [← h, hmid]
    unfold added
    rw [List.append_assoc]
  have hnewline : (added notice).head? = some (unit '\n') := rfl
  have hsplit : quoteBody (s ++ added notice) =
      quoteBody s ++ (mark ++ (quoteBody mid ++ [unit ']'])) := by
    rw [quoteBody_append, hadded]
    intro u _ v hv
    rw [hnewline] at hv
    cases hv
    exact .inr (by decide)
  have hwith : stringify (.arr (init ++ [put site (.str (s ++ added notice))])) =
      textBefore init site s ++ ((mark ++ (quoteBody mid ++ [unit ']'])) ++ unit '"' :: next) := by
    rw [htext, hsplit]
    simp [textBefore]
  have hwithout : stringify (.arr (init ++ [put site (.str s)])) =
      textBefore init site s ++ unit '"' :: next := by
    have h := htext []
    rw [List.append_nil] at h
    rw [h]
    simp [textBefore]
  unfold cleaned
  rw [hwith, hwithout, Bracketed.strike_note mark_ne_nil bracket_notMem_mark mark_borderless
    (by decide) (by decide) hnext]
  have hclosed : Bracketed.inside mark (unit ']') false (mark ++ (quoteBody mid ++ [unit ']'])) = false := by
    rw [← List.append_assoc]
    exact Bracketed.inside_close mark_ne_nil bracket_notMem_mark false _
  rw [Bracketed.kept_eq_nil_iff mark_ne_nil bracket_notMem_mark hclosed, ← hadded, ← closed_iff]
  rfl

/-! ## The turn that is recorded -/

theorem keyed_self (e : CachedTurnEntry τ) : e.keyed e.wire e.turnIndex e.prefixDigest = true := by
  simp [CachedTurnEntry.keyed]

/-- A turn that is recorded is the first of its key. -/
theorem find_recordTurn (entry : CachedTurnEntry τ) (entries : List (CachedTurnEntry τ)) :
    (recordTurn entry entries).find? (·.keyed entry.wire entry.turnIndex entry.prefixDigest) =
      some entry := by
  induction entries with
  | nil => exact List.find?_cons_of_pos (keyed_self entry)
  | cons e es ih =>
    rw [recordTurn]
    split
    · exact List.find?_cons_of_pos (keyed_self entry)
    · rename_i hother
      rw [List.find?_cons_of_neg hother]
      exact ih

theorem candidate_recordTurn (entry : CachedTurnEntry τ) (entries : List (CachedTurnEntry τ))
    (currentSig : Option Utf16) :
    candidate (recordTurn entry entries) entry.wire entry.turnIndex entry.prefixDigest currentSig =
      some entry := by
  unfold candidate
  rw [find_recordTurn]
  rfl

/-! ## Notices that the cache does not see -/

section Requests

variable {wire : WireProtocolName} {body last : Value} {frame : Frame} {init : List Value}

theorem conversation_eq (h : prop (conversationKey wire) body = some (frame, .arr init)) :
    conversation wire body = init := by
  unfold conversation
  rw [h]

theorem conversation_put {items items' : List Value}
    (h : prop (conversationKey wire) body = some (frame, .arr items)) :
    conversation wire (frame.put (.arr items')) = items' :=
  conversation_eq (prop_put h (.arr items'))

theorem injectContextNotice_eq {notice : Utf16} (hnotice : notice ≠ [])
    (h : prop (conversationKey wire) body = some (frame, .arr (init ++ [last]))) :
    injectContextNotice wire body notice =
      (injectLast wire notice last).map fun v => frame.put (.arr (init ++ [v])) := by
  have hlast : lastItem (init ++ [last]) = some (.item init [], last) := by simp [lastItem]
  unfold injectContextNotice
  rw [if_neg hnotice, h]
  simp only [hlast]
  rfl

end Requests

theorem Framed.ne_nil (h : Framed notice) : notice ≠ [] := by
  obtain ⟨mid, rfl⟩ := h
  exact List.append_ne_nil_of_left_ne_nil (by decide) _

theorem Unseen.deliverable {digest : Utf16 → Utf16} {wire : WireProtocolName} {body : Value}
    (hframed : Framed notice)
    (hdigest : ∀ c c' : List Value, digest (cleaned c) = digest (cleaned c') → cleaned c = cleaned c')
    (h : Unseen digest τ wire body notice) : Deliverable wire body notice := by
  obtain ⟨body', hinject, ⟨frame, init, last, last', hprop, happended, rfl⟩, hsame, -⟩ := h
  rw [injectContextNotice_eq hframed.ne_nil hprop, Option.map_eq_some_iff] at hinject
  obtain ⟨w, hw, hput⟩ := hinject
  obtain rfl : w = last' := by simpa using put_injective [frame] hput
  have htaken := last_taken wire notice last
  cases hsite : noticeSite wire last with
  | none =>
    obtain rfl | hshape := htaken.nowhere hsite w hw
    · exact absurd happended (not_appended_self (added_ne_nil notice) w)
    · exact absurd happended.shape_eq hshape
  | some p =>
    obtain ⟨site, s⟩ := p
    obtain ⟨rfl, hw'⟩ := htaken.here site s hsite
    obtain rfl := Option.some.inj (hw.symm.trans hw')
    rw [conversation_put hprop, conversation_eq hprop] at hsame
    exact ⟨frame, init, _, site, s, hprop, hsite,
      (cleaned_eq_iff hframed init site s).1 (hdigest _ _ hsame)⟩

theorem Deliverable.unseen {digest : Utf16 → Utf16} {wire : WireProtocolName} {body : Value}
    (hframed : Framed notice) (h : Deliverable wire body notice) :
    Unseen digest τ wire body notice := by
  obtain ⟨frame, init, last, site, s, hprop, hsite, hclean⟩ := h
  obtain ⟨rfl, hw⟩ := (last_taken wire notice last).here site s hsite
  have hsame := (cleaned_eq_iff hframed init site s).2 hclean
  refine ⟨frame.put (.arr (init ++ [put site (.str (s ++ added notice))])), ?_,
    ⟨frame, init, _, _, hprop, ⟨site, s, rfl, rfl⟩, rfl⟩, ?_, ?_⟩
  · rw [injectContextNotice_eq hframed.ne_nil hprop, hw]
    rfl
  · rw [conversation_put hprop, conversation_eq hprop]
    exact congrArg digest hsame
  · -- the digest that is looked up is the one under which the turn was recorded
    rintro entries entry currentSig rfl hdig
    rw [conversation_put hprop] at hdig
    rw [conversation_eq hprop, normalizeConversationForDigest, ← hsame]
    have hkey := candidate_recordTurn entry entries currentSig
    rw [hdig] at hkey
    exact hkey

/-- The notices that lookup returns are delivered without a trace in the digest exactly when the
    last item has a text for them, no earlier text has an open mark, and they are closed. -/
theorem unseen_iff (digest : Utf16 → Utf16)
    (hdigest : ∀ c c' : List Value, digest (cleaned c) = digest (cleaned c') → cleaned c = cleaned c')
    (τ : Type) (wire : WireProtocolName) (body : Value) {notice : Utf16}
    (hnotice : LookupNotice notice) :
    Unseen digest τ wire body notice ↔ Deliverable wire body notice :=
  ⟨fun h => h.deliverable hnotice.framed hdigest, fun h => h.unseen hnotice.framed⟩

/-! ### Two requests -/

/-- A chat request with one message. -/
def chatRequest (content : String) : Value :=
  .obj [(units "messages", .arr [.obj [(units "role", .str (units "user")),
    (units "content", .str (units content))]])]

/-- A `responses` request with one user message. -/
def messageRequest (text : String) : Value :=
  .obj [(units "input", .arr [.obj [(units "role", .str (units "user")),
    (units "content", .arr [.obj [(units "type", .str (units "input_text")),
      (units "text", .str (units text))]])]])]

theorem unseen_iff_removed :
    Unseen id Unit .chatCompletions (chatRequest "hi") (removedNotice [units "a.ts"]) := by
  refine (unseen_iff id (fun _ _ h => h) Unit .chatCompletions (chatRequest "hi")
    (.removed [units "a.ts"])).2 ?_
  refine ⟨.entry [] (units "messages") [], [], .obj [(units "role", .str (units "user")),
    (units "content", .str (units "hi"))], [.entry [(units "role", .str (units "user"))]
    (units "content") []], units "hi", rfl, rfl, ?_, ?_⟩
  · rw [← (Bracketed.inside_iff mark_ne_nil bracket_notMem_mark _).1]
    decide
  · refine ⟨[units "discovery set changed — removed entries: a.ts"], ?_, ?_⟩ <;> decide

/-- A line with a bracket ends the pattern early, so that the rest of the notice stays; a user
    message of a `responses` request takes no notice. -/
theorem notice_seen :
    ¬ Unseen id Unit .chatCompletions (chatRequest "hi")
        (buildCompactLineDiff (some (units "a[0]")) (units "b") (units "f.ts")) ∧
      ¬ Unseen id Unit .responses (messageRequest "hi") (removedNotice [units "a.ts"]) := by
  constructor
  · intro h
    obtain ⟨-, -, -, -, -, -, -, -, inner, hinner, heq⟩ :=
      h.deliverable (framed_compactLineDiff _ _ _) fun _ _ h => h
    have hwhole := (Bracketed.kept_eq_nil_iff (m := added opening) (c := unit ']') (by decide)
      (by decide) (by decide)).2 ⟨inner, hinner, heq⟩
    revert hwhole
    decide
  · intro h
    obtain ⟨frame, init, last, site, s, hprop, hsite, -⟩ :=
      h.deliverable (LookupNotice.removed _).framed fun _ _ h => h
    have hitems := Value.arr.inj (Prod.mk.inj (Option.some.inj hprop)).2
    obtain ⟨-, hlast⟩ := List.append_inj' (List.nil_append _ |>.trans hitems) rfl
    obtain rfl := (List.cons.inj hlast).1
    cases hsite

end XioFlow.Gateway
