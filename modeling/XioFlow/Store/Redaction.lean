/-
  XioFlow.Store.Redaction

  Which values survive the journal unchanged.

  A value is `Clean` when nothing in it is dropped or turned into something
  else: no redacted or prototype name at any depth, no undefined property, no
  negative zero, no object other than plain ones and arrays.  What the journal
  stores for an accepted value is that value exactly when it is clean.
-/

import XioFlow.Store.EventEnvelope

namespace XioFlow

/-- A name under which a value is kept. -/
def keptName (key : String) : Bool := !isSecretKey key && key ≠ "__proto__"

mutual

/-- Nothing in the value is dropped or changed on its way into the journal. -/
def JsValue.clean : JsValue → Bool
  | .null | .bool _ | .str _ | .num (.finite _) => true
  | .arr items => cleanItems items
  | .obj entries => cleanEntries entries
  | .num .negZero | .num .nonFinite | .undefined | .exotic _ | .bigint _ | .callable => false

def JsValue.cleanItems : List JsValue → Bool
  | [] => true
  | item :: items => item.clean && cleanItems items

def JsValue.cleanEntries : List (String × JsValue) → Bool
  | [] => true
  | (key, item) :: entries => keptName key && item.clean && cleanEntries entries

end

/-! ## Clean values are stored as they are -/

mutual

theorem jsonValue_of_clean : ∀ (v : JsValue) (path : String), v.clean = true →
    ∃ j, jsonValue v path = .ok j ∧ j.toJs = v
  | .null, _, _ => ⟨.null, rfl, rfl⟩
  | .bool b, _, _ => ⟨.bool b, rfl, rfl⟩
  | .str s, _, _ => ⟨.str s, rfl, rfl⟩
  | .num (.finite q), _, _ => ⟨.num q, rfl, rfl⟩
  | .arr items, path, h => by
      obtain ⟨js, hjs, heq⟩ := jsonItems_of_clean items path 0 (by simpa [JsValue.clean] using h)
      exact ⟨.arr js, by simp [jsonValue, hjs], by simp [Json.toJs, heq]⟩
  | .obj entries, path, h => by
      obtain ⟨js, hjs, heq⟩ := jsonEntries_of_clean entries path (by simpa [JsValue.clean] using h)
      exact ⟨.obj js, by simp [jsonValue, hjs], by simp [Json.toJs, heq]⟩
  | .num .negZero, _, h => by simp [JsValue.clean] at h
  | .num .nonFinite, _, h => by simp [JsValue.clean] at h
  | .undefined, _, h => by simp [JsValue.clean] at h
  | .exotic _, _, h => by simp [JsValue.clean] at h
  | .bigint _, _, h => by simp [JsValue.clean] at h
  | .callable, _, h => by simp [JsValue.clean] at h

theorem jsonItems_of_clean : ∀ (items : List JsValue) (path : String) (index : Nat),
    JsValue.cleanItems items = true →
    ∃ js, jsonItems items path index = .ok js ∧ Json.toJsItems js = items
  | [], _, _, _ => ⟨[], rfl, rfl⟩
  | item :: items, path, index, h => by
      simp only [JsValue.cleanItems, Bool.and_eq_true] at h
      obtain ⟨j, hj, heq⟩ := jsonValue_of_clean item (path ++ "[" ++ toString index ++ "]") h.1
      obtain ⟨js, hjs, heqs⟩ := jsonItems_of_clean items path (index + 1) h.2
      exact ⟨j :: js, by simp only [jsonItems, hj, hjs]; rfl, by simp [Json.toJsItems, heq, heqs]⟩

theorem jsonEntries_of_clean : ∀ (entries : List (String × JsValue)) (path : String),
    JsValue.cleanEntries entries = true →
    ∃ js, jsonEntries entries path = .ok js ∧ Json.toJsEntries js = entries
  | [], _, _ => ⟨[], rfl, rfl⟩
  | (key, item) :: entries, path, h => by
      simp only [JsValue.cleanEntries, keptName, Bool.and_eq_true, Bool.not_eq_true',
        decide_eq_true_eq] at h
      obtain ⟨⟨⟨hsecret, hproto⟩, hitem⟩, hrest⟩ := h
      obtain ⟨j, hj, heq⟩ := jsonValue_of_clean item (path ++ "." ++ key) hitem
      obtain ⟨js, hjs, heqs⟩ := jsonEntries_of_clean entries path hrest
      refine ⟨(key, j) :: js, ?_, by simp [Json.toJsEntries, heq, heqs]⟩
      have hundef : item.isUndefined = false := by
        cases item <;> simp_all [JsValue.clean, JsValue.isUndefined]
      rw [jsonEntries, if_neg (by simp [hsecret, hundef]), hj, hjs]
      exact congrArg Except.ok (if_neg hproto)

end

/-! ## Only clean values are stored as they are -/

theorem Json.toJsEntries_length (js : List (String × Json)) :
    (Json.toJsEntries js).length = js.length := by
  induction js with
  | nil => rfl
  | cons e js ih =>
    obtain ⟨key, j⟩ := e
    simp [Json.toJsEntries, ih]

variable {path : String} {js : List (String × Json)}

variable {entries : List (String × JsValue)} {j : Json}

theorem jsonEntries_length (h : jsonEntries entries path = .ok js) :
    js.length ≤ entries.length := by
  induction entries generalizing js with
  | nil =>
    cases h
    simp
  | cons entry entries ih =>
    obtain ⟨key, item⟩ := entry
    rcases jsonEntries_cons_ok h with ⟨_, hrest⟩ | ⟨_, j, rest, _, hrest, rfl⟩
    · exact Nat.le_succ_of_le (ih hrest)
    · have hlen := ih hrest
      split
      · exact Nat.le_succ_of_le hlen
      · simpa using hlen

mutual

/-- A conversion never adds entries or items, so one that gives the value back dropped nothing. -/
theorem clean_of_jsonValue : ∀ (v : JsValue) (path : String) (j : Json),
    jsonValue v path = .ok j → j.toJs = v → v.clean = true
  | .null, _, _, _, _ => rfl
  | .bool _, _, _, _, _ => rfl
  | .str _, _, _, _, _ => rfl
  | .num (.finite _), _, _, _, _ => rfl
  | .num .negZero, _, j, h, heq => by
      cases h
      cases heq
  | .num .nonFinite, _, _, h, _ => by cases h
  | .undefined, _, _, h, _ => by cases h
  | .bigint _, _, _, h, _ => by cases h
  | .callable, _, _, h, _ => by cases h
  | .arr items, path, j, h, heq => by
      rw [jsonValue] at h
      cases hjs : jsonItems items path 0 with
      | error =>
        rw [hjs] at h
        cases h
      | ok js =>
        rw [hjs] at h
        cases h
        simp only [Json.toJs, JsValue.arr.injEq] at heq
        rw [JsValue.clean]
        exact cleanItems_of_jsonItems items path 0 js hjs heq
  | .obj entries, path, j, h, heq => by
      rw [jsonValue] at h
      cases hjs : jsonEntries entries path with
      | error =>
        rw [hjs] at h
        cases h
      | ok js =>
        rw [hjs] at h
        cases h
        simp only [Json.toJs, JsValue.obj.injEq] at heq
        rw [JsValue.clean]
        exact cleanEntries_of_jsonEntries entries path js hjs heq
  | .exotic entries, path, j, h, heq => by
      rw [jsonValue] at h
      cases hjs : jsonEntries entries path with
      | error =>
        rw [hjs] at h
        cases h
      | ok =>
        rw [hjs] at h
        cases h
        simp only [Json.toJs] at heq
        cases heq

theorem cleanItems_of_jsonItems : ∀ (items : List JsValue) (path : String) (index : Nat)
    (js : List Json), jsonItems items path index = .ok js → Json.toJsItems js = items →
    JsValue.cleanItems items = true
  | [], _, _, _, _, _ => rfl
  | item :: items, path, index, js, h, heq => by
      obtain ⟨j, rest, hj, hrest, rfl⟩ := jsonItems_cons_ok h
      simp only [Json.toJsItems, List.cons.injEq] at heq
      rw [JsValue.cleanItems, clean_of_jsonValue item _ j hj heq.1,
        cleanItems_of_jsonItems items path (index + 1) rest hrest heq.2]
      rfl

theorem cleanEntries_of_jsonEntries : ∀ (entries : List (String × JsValue)) (path : String)
    (js : List (String × Json)), jsonEntries entries path = .ok js →
    Json.toJsEntries js = entries → JsValue.cleanEntries entries = true
  | [], _, _, _, _ => rfl
  | (key, item) :: entries, path, js, h, heq => by
      rcases jsonEntries_cons_ok h with ⟨_, hrest⟩ | ⟨hkept, j, rest, hj, hrest, hjs⟩
      · -- Dropped: the result is shorter than the value it should equal.
        have hlen := jsonEntries_length hrest
        have hlen' := congrArg List.length heq
        rw [Json.toJsEntries_length, List.length_cons] at hlen'
        omega
      · by_cases hproto : key = "__proto__"
        · rw [if_pos hproto] at hjs
          subst hjs
          have hlen := jsonEntries_length hrest
          have hlen' := congrArg List.length heq
          rw [Json.toJsEntries_length, List.length_cons] at hlen'
          omega
        · rw [if_neg hproto] at hjs
          subst hjs
          simp only [Json.toJsEntries, List.cons.injEq, Prod.mk.injEq] at heq
          simp only [Bool.or_eq_false_iff] at hkept
          rw [JsValue.cleanEntries, clean_of_jsonValue item _ j hj heq.1.2,
            cleanEntries_of_jsonEntries entries path rest hrest heq.2]
          simp [keptName, hkept.1, hproto]

end

/-- What the journal stores for an accepted value is that value exactly when it is clean. -/
theorem jsonValue_toJs_iff {v : JsValue} (h : jsonValue v path = .ok j) :
    j.toJs = v ↔ v.clean = true := by
  constructor
  · exact clean_of_jsonValue v path j h
  · intro hclean
    obtain ⟨j', hj', heq⟩ := jsonValue_of_clean v path hclean
    rw [h] at hj'
    cases hj'
    exact heq

mutual

theorem Json.toJs_injective : ∀ a b : Json, a.toJs = b.toJs → a = b
  | .null, b, h => by cases b <;> simp_all [Json.toJs]
  | .bool _, b, h => by cases b <;> simp_all [Json.toJs]
  | .num _, b, h => by cases b <;> simp_all [Json.toJs]
  | .str _, b, h => by cases b <;> simp_all [Json.toJs]
  | .arr items, b, h => by
      cases b with
      | arr items' =>
        simp only [Json.toJs, JsValue.arr.injEq] at h
        rw [Json.toJsItems_injective items items' h]
      | _ => simp [Json.toJs] at h
  | .obj entries, b, h => by
      cases b with
      | obj entries' =>
        simp only [Json.toJs, JsValue.obj.injEq] at h
        rw [Json.toJsEntries_injective entries entries' h]
      | _ => simp [Json.toJs] at h

theorem Json.toJsItems_injective : ∀ as bs : List Json,
    Json.toJsItems as = Json.toJsItems bs → as = bs
  | [], [], _ => rfl
  | [], _ :: _, h => by simp [Json.toJsItems] at h
  | _ :: _, [], h => by simp [Json.toJsItems] at h
  | a :: as, b :: bs, h => by
      simp only [Json.toJsItems, List.cons.injEq] at h
      rw [Json.toJs_injective a b h.1, Json.toJsItems_injective as bs h.2]

theorem Json.toJsEntries_injective : ∀ as bs : List (String × Json),
    Json.toJsEntries as = Json.toJsEntries bs → as = bs
  | [], [], _ => rfl
  | [], (_, _) :: _, h => by simp [Json.toJsEntries] at h
  | (_, _) :: _, [], h => by simp [Json.toJsEntries] at h
  | (k, a) :: as, (k', b) :: bs, h => by
      simp only [Json.toJsEntries, List.cons.injEq, Prod.mk.injEq] at h
      rw [h.1.1, Json.toJs_injective a b h.1.2, Json.toJsEntries_injective as bs h.2]

end

/-- The same for a value that came from JSON: the journal gives it back exactly when it is clean. -/
theorem jsonValue_eq_self_iff {v : Json} (h : jsonValue v.toJs path = .ok j) :
    j = v ↔ v.toJs.clean = true := by
  rw [← jsonValue_toJs_iff h]
  exact ⟨fun heq => heq ▸ rfl, Json.toJs_injective j v⟩

/-! ## Objects property by property -/

/-- Converting only some of the properties gives only those of the result. -/
theorem jsonEntries_filter (keep : String → Bool) (h : jsonEntries entries path = .ok js) :
    jsonEntries (entries.filter fun e => keep e.1) path = .ok (js.filter fun e => keep e.1) := by
  induction entries generalizing js with
  | nil =>
    cases h
    rfl
  | cons entry entries ih =>
    obtain ⟨key, item⟩ := entry
    rcases jsonEntries_cons_ok h with ⟨hdrop, hrest⟩ | ⟨hkept, j, rest, hj, hrest, rfl⟩
    · rw [← ih hrest, List.filter_cons]
      split
      · rw [jsonEntries, if_pos hdrop]
      · rfl
    · have hfilter := ih hrest
      by_cases hkeep : keep key = true
      · rw [List.filter_cons, if_pos hkeep, jsonEntries, if_neg (by simp [hkept]), hj, hfilter]
        by_cases hproto : key = "__proto__"
        · rw [if_pos hproto]
          exact congrArg Except.ok (if_pos hproto)
        · rw [if_neg hproto, List.filter_cons, if_pos hkeep]
          exact congrArg Except.ok (if_neg hproto)
      · rw [List.filter_cons, if_neg hkeep, hfilter]
        by_cases hproto : key = "__proto__"
        · rw [if_pos hproto]
        · rw [if_neg hproto, List.filter_cons, if_neg hkeep]

/-- The conversion of a list of properties is that list exactly when all of it is clean. -/
theorem jsonEntries_toJs_iff (h : jsonEntries entries path = .ok js) :
    Json.toJsEntries js = entries ↔ JsValue.cleanEntries entries = true := by
  constructor
  · exact cleanEntries_of_jsonEntries entries path js h
  · intro hclean
    obtain ⟨js', hjs', heq⟩ := jsonEntries_of_clean entries path hclean
    rw [h] at hjs'
    cases hjs'
    exact heq

/-- A property under a kept name comes first in the result. -/
theorem jsonEntries_kept_ok {key : String} {item : JsValue} (hname : keptName key = true)
    (hdef : item.isUndefined = false) (h : jsonEntries ((key, item) :: entries) path = .ok js) :
    ∃ j rest, jsonValue item (path ++ "." ++ key) = .ok j ∧
      jsonEntries entries path = .ok rest ∧ js = (key, j) :: rest := by
  simp only [keptName, Bool.and_eq_true, Bool.not_eq_true', decide_eq_true_eq] at hname
  rcases jsonEntries_cons_ok h with ⟨hdrop, _⟩ | ⟨_, j, rest, hj, hrest, rfl⟩
  · simp [hname.1, hdef] at hdrop
  · exact ⟨j, rest, hj, hrest, if_neg hname.2⟩

/-- A property under a kept name is found in the result under that name. -/
theorem jsonEntries_field {name : String} {item : JsValue} (hname : keptName name = true)
    (hdef : item.isUndefined = false) :
    ∀ {entries : List (String × JsValue)} {js : List (String × Json)},
      entries.find? (fun e => e.1 == name) = some (name, item) →
      jsonEntries entries path = .ok js →
      ∃ j, jsonValue item (path ++ "." ++ name) = .ok j ∧ (Json.obj js).field? name = some j
  | [], _, hfind, _ => by cases hfind
  | (key, value) :: entries, js, hfind, h => by
      by_cases hkey : key = name
      · subst hkey
        simp only [List.find?_cons, BEq.rfl, Option.some.injEq, Prod.mk.injEq, true_and] at hfind
        subst hfind
        obtain ⟨j, rest, hj, -, rfl⟩ := jsonEntries_kept_ok hname hdef h
        exact ⟨j, hj, by simp [Json.field?]⟩
      · have hne : (key == name) = false := by simpa using hkey
        rw [List.find?_cons, hne] at hfind
        rcases jsonEntries_cons_ok h with ⟨-, hrest⟩ | ⟨-, value', rest, -, hrest, rfl⟩
        · exact jsonEntries_field hname hdef hfind hrest
        · obtain ⟨j, hj, hfield⟩ := jsonEntries_field hname hdef hfind hrest
          refine ⟨j, hj, ?_⟩
          split
          · exact hfield
          · simp only [Json.field?, List.find?_cons, hne] at hfield ⊢
            exact hfield

theorem jsonValue_obj_ok (h : jsonValue (.obj entries) path = .ok j) :
    ∃ js, jsonEntries entries path = .ok js ∧ j = .obj js := by
  rw [jsonValue] at h
  cases hjs : jsonEntries entries path with
  | error =>
    rw [hjs] at h
    cases h
  | ok js =>
    rw [hjs] at h
    cases h
    exact ⟨js, rfl, rfl⟩

theorem jsonValue_arr_ok {items : List JsValue} (h : jsonValue (.arr items) path = .ok j) :
    ∃ js, jsonItems items path 0 = .ok js ∧ j = .arr js := by
  rw [jsonValue] at h
  cases hjs : jsonItems items path 0 with
  | error =>
    rw [hjs] at h
    cases h
  | ok js =>
    rw [hjs] at h
    cases h
    exact ⟨js, rfl, rfl⟩

/-- The payload of an accepted envelope that is not secret is the converted payload. -/
theorem createEventEnvelope_payload {input : EventEnvelopeInput} {now : Timestamp}
    {envelope : EventEnvelope} (h : createEventEnvelope input now = .ok envelope)
    (hpayload : input.payload = .obj entries) (hsens : input.sensitivity = none) :
    envelope.event = input.event ∧
      ∃ js, jsonEntries entries "payload" = .ok js ∧ envelope.payload = .obj js := by
  unfold createEventEnvelope at h
  simp only at h
  split at h
  · cases h
  split at h
  · cases h
  split at h
  · cases h
  unfold redactEventPayload at h
  rw [hpayload, hsens] at h
  simp only [Option.getD_none, reduceCtorEq, if_false] at h
  cases hv : jsonValue (.obj entries) "payload" with
  | error =>
    rw [hv] at h
    cases h
  | ok =>
    obtain ⟨js, hjs, rfl⟩ := jsonValue_obj_ok hv
    rw [hv] at h
    cases h
    exact ⟨rfl, js, hjs, rfl⟩

end XioFlow
