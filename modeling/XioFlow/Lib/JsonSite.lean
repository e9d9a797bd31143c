/-
  XioFlow.Lib.JsonSite

  Sites in JSON values, and the text of a value around a site.

  A site is a reference into a value: what is put there is written through
  it.  Appending to a string at a site leaves the rest of the text as it was.
-/

import XioFlow.Lib.JsonRoundTrip

namespace XioFlow.Lib.JsonText

open Lib

/-! ## Sites -/

/-- A value in an array or in an object, with what stands around it. -/
inductive Frame where
  | item (before after : List Value)
  | entry (before : List (Utf16 × Value)) (key : Utf16) (after : List (Utf16 × Value))

def Frame.put : Frame → Value → Value
  | item before after, v => .arr (before ++ v :: after)
  | entry before key after, v => .obj (before ++ (key, v) :: after)

/-- The frames around a site, from the outside. -/
abbrev Site := List Frame

/-- The value with `v` at the site. -/
def put (site : Site) (v : Value) : Value := site.foldr Frame.put v

@[simp] theorem put_nil (v : Value) : put [] v = v := rfl

@[simp] theorem put_cons (frame : Frame) (site : Site) (v : Value) :
    put (frame :: site) v = frame.put (put site v) := rfl

/-- `object[name]`, as a site among the properties. -/
def entryAt (key : Utf16) : List (Utf16 × Value) → Option (Frame × Value)
  | [] => none
  | (k, v) :: es =>
    if k = key then some (.entry [] k es, v)
    else
      match entryAt key es with
      | some (.entry before k' after, w) => some (.entry ((k, v) :: before) k' after, w)
      | _ => none

/-- `v?.[name]`, for a name that only objects have -/
def prop (name : String) : Value → Option (Frame × Value)
  | .obj entries => entryAt (units name) entries
  | _ => none

/-- `items.at(-1)` -/
def lastItem (items : List Value) : Option (Frame × Value) :=
  items.getLast?.map fun v => (.item items.dropLast [], v)

variable {v : Value} {frame : Frame}

theorem put_entryAt {key : Utf16} {entries : List (Utf16 × Value)}
    (h : entryAt key entries = some (frame, v)) : .obj entries = frame.put v := by
  induction entries generalizing frame with
  | nil => cases h
  | cons e es ih =>
    obtain ⟨k, w⟩ := e
    rw [entryAt] at h
    split at h
    · cases h
      rfl
    · split at h
      · rename_i before k' after w' hrest
        cases h
        have := ih hrest
        simp only [Frame.put, Value.obj.injEq] at this ⊢
        rw [this, List.cons_append]
      · cases h

variable {w : Value} {s : Utf16}

theorem put_prop {name : String} (h : prop name v = some (frame, w)) :
    v = frame.put w := by
  cases v with
  | obj => exact put_entryAt h
  | null | bool | num | str | arr => cases h

/-- What is put at a property is what is read there. -/
theorem prop_put {name : String} (h : prop name v = some (frame, w))
    (w' : Value) : prop name (frame.put w') = some (frame, w') := by
  have hentry : ∀ {entries : List (Utf16 × Value)} {frame : Frame},
      entryAt (units name) entries = some (frame, w) →
        ∃ entries', frame.put w' = .obj entries' ∧ entryAt (units name) entries' = some (frame, w') := by
    intro entries
    induction entries with
    | nil => nofun
    | cons e es ih =>
      intro frame h
      obtain ⟨k, u⟩ := e
      rw [entryAt] at h
      split at h
      · rename_i hkey
        cases h
        exact ⟨(k, w') :: es, rfl, by rw [entryAt, if_pos hkey]⟩
      · rename_i hkey
        split at h
        · rename_i before k' after u' hrest
          cases h
          obtain ⟨entries', hput, hat⟩ := ih hrest
          obtain rfl : before ++ (k', w') :: after = entries' := Value.obj.inj hput
          exact ⟨(k, u) :: (before ++ (k', w') :: after), rfl, by
            rw [entryAt, if_neg hkey, hat]⟩
        · cases h
  cases v with
  | obj =>
    obtain ⟨entries', hput, hat⟩ := hentry h
    rw [hput]
    exact hat
  | null | bool | num | str | arr => cases h

theorem put_lastItem {items : List Value}
    (h : lastItem items = some (frame, v)) : .arr items = frame.put v := by
  obtain ⟨w, hw, heq⟩ := Option.map_eq_some_iff.1 h
  cases heq
  obtain ⟨init, rfl⟩ := List.getLast?_eq_some_iff.1 hw
  simp [Frame.put]

/-! ## The text around a site -/

/-- The texts, each with a comma behind it. -/
def leading (texts : List Utf16) : Utf16 := texts.flatMap fun text => text ++ [unit ',']

def Frame.front : Frame → Utf16
  | item before _ => unit '[' :: leading (stringifyItems before)
  | entry before key _ => unit '\x7b' :: (leading (stringifyEntries before) ++ (quote key ++ [unit ':']))

def Frame.back : Frame → Utf16
  | item _ after => continued (stringifyItems after) ++ [unit ']']
  | entry _ _ after => continued (stringifyEntries after) ++ [unit '\x7d']

/-- The text before a site. -/
def front (site : Site) : Utf16 := site.flatMap Frame.front

/-- The text behind a site. -/
def back : Site → Utf16
  | [] => []
  | frame :: site => back site ++ frame.back

theorem commaSeparated_around (before : List Utf16) (text : Utf16) (after : List Utf16) :
    commaSeparated (before ++ text :: after) = leading before ++ (text ++ continued after) := by
  induction before with
  | nil => exact commaSeparated_cons text after
  | cons first before ih =>
    have hmore : before ++ text :: after ≠ [] := by simp
    obtain ⟨x, xs, hx⟩ := List.exists_cons_of_ne_nil hmore
    rw [List.cons_append, hx, commaSeparated, ← hx, ih]
    simp [leading]

theorem stringify_frame (frame : Frame) (v : Value) :
    stringify (frame.put v) = frame.front ++ (stringify v ++ frame.back) := by
  cases frame with
  | item before after =>
    simp [Frame.put, Frame.front, Frame.back, stringify, stringifyItems_eq,
      commaSeparated_around]
  | entry before key after =>
    simp [Frame.put, Frame.front, Frame.back, stringify, stringifyEntries_eq,
      commaSeparated_around]

/-- The text of a value is that of what is at a site, between what is around it. -/
theorem stringify_put (site : Site) (v : Value) :
    stringify (put site v) = front site ++ (stringify v ++ back site) := by
  induction site with
  | nil => simp [front, back]
  | cons frame site ih =>
    rw [put_cons, stringify_frame, ih, back]
    simp [front]

/-! ## Strings that are joined -/

/-- A string is escaped unit by unit, where no pair stands across the parts. -/
theorem quoteBody_append {t : Utf16}
    (h : ∀ u ∈ s.getLast?, ∀ v ∈ t.head?, u.isHigh = false ∨ v.isLow = false) :
    quoteBody (s ++ t) = quoteBody s ++ quoteBody t := by
  induction s using quoteBody.induct with
  | case1 => rfl
  | case2 u =>
    cases t with
    | nil => simp [quoteBody]
    | cons v =>
      have hpair : (u.isHigh && v.isLow) = false := by
        obtain hu | hv := h u (by simp) v (by simp)
        · rw [hu, Bool.false_and]
        · rw [hv, Bool.and_false]
      simp [quoteBody, hpair]
  | case3 u v rest hpair ih =>
    rw [List.cons_append, List.cons_append, quoteBody, if_pos hpair, quoteBody, if_pos hpair]
    cases rest with
    | nil =>
      simp [quoteBody]
    | cons =>
      rw [ih (by simpa using h)]
      rfl
  | case4 u v rest hpair ih =>
    rw [List.cons_append, List.cons_append, quoteBody, if_neg hpair, quoteBody, if_neg hpair,
      ← List.cons_append, ih (by simpa using h), List.append_assoc]

theorem quoteBody_cons {u : CodeUnit} (hu : u.isSurrogate = false) (s : Utf16) :
    quoteBody (u :: s) = quoteUnit u ++ quoteBody s := by
  have hhigh : u.isHigh = false := (Bool.or_eq_false_iff.1 hu).1
  exact quoteBody_append (s := [u]) fun v hv _ _ => .inl (by cases hv; exact hhigh)

theorem quoteBody_eq_nil (h : quoteBody s = []) : s = [] := by
  have hread := parseString_quoteBody s []
  rw [h, List.nil_append, parseString_quote] at hread
  exact (Prod.mk.inj (Option.some.inj hread)).1.symm

/-- What begins with the text of a unit is the text of a string that begins with the unit. -/
theorem quoteBody_eq_quoteUnit_append {u : CodeUnit} (hu : u.isSurrogate = false) {x : Utf16}
    (h : quoteBody s = quoteUnit u ++ x) : ∃ t, s = u :: t ∧ x = quoteBody t := by
  have hread := parseString_quoteBody s []
  rw [h, List.append_assoc, parseString_quoteUnit, Option.map_eq_some_iff] at hread
  obtain ⟨r, -, hr⟩ := hread
  obtain ⟨rfl, -⟩ := Prod.mk.inj hr
  rw [quoteBody_cons hu, List.append_cancel_left_eq] at h
  exact ⟨r.1, rfl, h.symm⟩

theorem quoteBody_eq_append {p : Utf16} (hp : ∀ u ∈ p, u.isSurrogate = false) {x : Utf16}
    (h : quoteBody s = quoteBody p ++ x) : ∃ t, s = p ++ t ∧ x = quoteBody t := by
  induction p generalizing s with
  | nil => exact ⟨s, rfl, h.symm⟩
  | cons u p ih =>
    rw [quoteBody_cons (hp u List.mem_cons_self), List.append_assoc] at h
    obtain ⟨t, rfl, ht⟩ := quoteBody_eq_quoteUnit_append (hp u List.mem_cons_self) h
    obtain ⟨t, rfl, hx⟩ := ih (fun v hv => hp v (.tail u hv)) ht.symm
    exact ⟨t, rfl, hx⟩

/-! ### The closing bracket -/

theorem eq_of_bracket_quoteUnit {v : CodeUnit} (h : unit ']' ∈ quoteUnit v) : v = unit ']' := by
  unfold quoteUnit at h
  split at h
  · rename_i e hfound
    have hletter : ∀ e ∈ shortEscapes, e.1 ≠ unit ']' := by
      unfold shortEscapes
      simp only [List.forall_mem_cons, List.not_mem_nil, false_implies, implies_true, and_true]
      refine ⟨?_, ?_, ?_, ?_, ?_, ?_, ?_⟩ <;> decide
    rcases List.mem_cons.1 h with h | h
    · exact absurd h (by decide)
    · exact absurd (List.mem_singleton.1 h).symm
        (hletter e (List.mem_of_find?_eq_some hfound))
  · split at h
    · have hdigit : ∀ n : Fin 16, unit ']' ≠ hexDigit n.val := by decide
      have hlt := v.isLt
      have hdigit' : ∀ n, n < 16 → unit ']' ≠ hexDigit n := fun n hn => hdigit ⟨n, hn⟩
      simp only [escapeUnit, List.mem_cons, List.not_mem_nil, or_false] at h
      rcases h with h | h | h | h | h | h
      · exact absurd h (by decide)
      · exact absurd h (by decide)
      · exact absurd h (hdigit' _ (by omega))
      · exact absurd h (hdigit' _ (by omega))
      · exact absurd h (hdigit' _ (by omega))
      · exact absurd h (hdigit' _ (by omega))
    · exact (List.mem_singleton.1 h).symm

/-- No escape writes a closing bracket. -/
theorem mem_of_bracket_quoteBody (h : unit ']' ∈ quoteBody s) : unit ']' ∈ s := by
  induction s using quoteBody.induct with
  | case1 => exact h
  | case2 => exact List.mem_singleton.2 (eq_of_bracket_quoteUnit h).symm
  | case3 u v s hpair ih =>
    rw [quoteBody, if_pos hpair] at h
    rcases List.mem_cons.1 h with h | h
    · exact List.mem_cons.2 (.inl h)
    · rcases List.mem_cons.1 h with h | h
      · exact .tail u (List.mem_cons.2 (.inl h))
      · exact .tail u (.tail v (ih h))
  | case4 u v s hpair ih =>
    rw [quoteBody, if_neg hpair] at h
    rcases List.mem_append.1 h with h | h
    · exact List.mem_cons.2 (.inl (eq_of_bracket_quoteUnit h).symm)
    · exact .tail u (ih h)

theorem quoteBody_bracket (a rest : Utf16) :
    quoteBody (a ++ unit ']' :: rest) = quoteBody a ++ unit ']' :: quoteBody rest := by
  have hbracket : quoteUnit (unit ']') = [unit ']'] := by decide
  rw [quoteBody_append, quoteBody_cons (by decide), hbracket]
  · rfl
  · intro u _ v hv
    cases hv
    exact .inr (by decide)

/-- What stands behind a site where a string is, from the closing quote on. -/
theorem stringify_put_str (site : Site) (s : Utf16) :
    stringify (put site (.str s)) =
      front site ++ unit '"' :: (quoteBody s ++ unit '"' :: back site) := by
  rw [stringify_put, stringify, quote]
  simp

/-! ## Values up to their strings -/

mutual

/-- The value with all its strings empty; keys stay. -/
def shape : Value → Value
  | .str _ => .str []
  | .arr items => .arr (shapeItems items)
  | .obj entries => .obj (shapeEntries entries)
  | v => v

def shapeItems : List Value → List Value
  | [] => []
  | v :: vs => shape v :: shapeItems vs

def shapeEntries : List (Utf16 × Value) → List (Utf16 × Value)
  | [] => []
  | (k, v) :: es => (k, shape v) :: shapeEntries es

end

theorem shapeItems_eq_map (items : List Value) : shapeItems items = items.map shape := by
  induction items with
  | nil => rfl
  | cons v items ih => rw [shapeItems, ih, List.map_cons]

theorem shapeEntries_eq_map (entries : List (Utf16 × Value)) :
    shapeEntries entries = entries.map fun e => (e.1, shape e.2) := by
  induction entries with
  | nil => rfl
  | cons e entries ih => rw [shapeEntries, ih, List.map_cons]

theorem shape_put_inj (site : Site) :
    shape (put site v) = shape (put site w) ↔ shape v = shape w := by
  induction site with
  | nil => rfl
  | cons frame site ih =>
    rw [put_cons, put_cons, ← ih]
    cases frame with
    | item => simp [Frame.put, shape, shapeItems_eq_map]
    | entry => simp [Frame.put, shape, shapeEntries_eq_map]

theorem put_injective (site : Site) : Function.Injective (put site) := by
  induction site with
  | nil => exact fun _ _ h => h
  | cons frame site ih =>
    intro v w h
    apply ih
    cases frame with
    | item | entry => simpa [Frame.put] using h

/-! ## Appending to a string -/

/-- One string in the value is longer by the added text, and nothing else is different. -/
def Appended (added : Utf16) (v v' : Value) : Prop :=
  ∃ site s, v = put site (.str s) ∧ v' = put site (.str (s ++ added))

theorem Appended.shape_eq {added : Utf16} {v' : Value} (h : Appended added v v') :
    shape v = shape v' := by
  obtain ⟨site, s, rfl, rfl⟩ := h
  exact (shape_put_inj site).2 rfl

theorem not_appended_self {added : Utf16} (hadded : added ≠ []) (v : Value) :
    ¬ Appended added v v := by
  rintro ⟨site, s, hv, hv'⟩
  have heq := put_injective site (hv.symm.trans hv')
  rw [Value.str.injEq] at heq
  exact hadded (List.self_eq_append_right.1 heq)

end XioFlow.Lib.JsonText
