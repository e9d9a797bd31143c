/-
  XioFlow.Lib.Outcome

  Functions that may fail, in sequence and over a list: the whole succeeds
  exactly when every part does.
-/

namespace XioFlow.Lib

variable {α β ε : Type} {f : α → Except ε β}

variable {x : Except ε α} {b : β} {a : α}

theorem except_bind_ok (h : x >>= f = .ok b) : ∃ a, x = .ok a ∧ f a = .ok b := by
  cases x with
  | error => cases h
  | ok a => exact ⟨a, rfl, h⟩

theorem except_map_ok {g : α → β} (h : x.map g = .ok b) : ∃ a, x = .ok a ∧ g a = b := by
  cases x with
  | error => cases h
  | ok a => exact ⟨a, rfl, Except.ok.inj h⟩

theorem except_mapError_ok {ε' : Type} {g : ε → ε'} (h : x.mapError g = .ok a) : x = .ok a := by
  cases x with
  | error => cases h
  | ok => exact congrArg _ (Except.ok.inj h)

theorem except_seq_ok_iff {x : Except ε Unit} {y : Except ε α} :
    (do x; y) = .ok a ↔ x = .ok () ∧ y = .ok a := by
  cases x with
  | error =>
    constructor
    · intro h
      cases h
    · rintro ⟨⟨⟩, -⟩
  | ok => exact ⟨fun h => ⟨rfl, h⟩, fun h => h.2⟩

variable {as : List α} {bs : List β}

theorem mapM_cons_ok (h : (a :: as).mapM f = .ok bs) :
    ∃ b rest, f a = .ok b ∧ as.mapM f = .ok rest ∧ bs = b :: rest := by
  rw [List.mapM_cons] at h
  cases hb : f a with
  | error =>
    rw [hb] at h
    cases h
  | ok b =>
    cases hrest : as.mapM f with
    | error =>
      rw [hb, hrest] at h
      cases h
    | ok rest =>
      rw [hb, hrest] at h
      cases h
      exact ⟨b, rest, rfl, rfl, rfl⟩

theorem mapM_append_ok {as' : List α} (h : (as ++ as').mapM f = .ok bs) :
    ∃ xs ys, as.mapM f = .ok xs ∧ as'.mapM f = .ok ys ∧ bs = xs ++ ys := by
  induction as generalizing bs with
  | nil => exact ⟨[], bs, rfl, h, rfl⟩
  | cons a as ih =>
    rw [List.cons_append] at h
    obtain ⟨b, rest, hb, hrest, rfl⟩ := mapM_cons_ok h
    obtain ⟨xs, ys, hxs, hys, rfl⟩ := ih hrest
    refine ⟨b :: xs, ys, ?_, hys, rfl⟩
    rw [List.mapM_cons, hb, hxs]
    rfl

theorem mem_of_mapM_ok (h : as.mapM f = .ok bs) (ha : a ∈ as) : ∃ b ∈ bs, f a = .ok b := by
  induction as generalizing bs with
  | nil => cases ha
  | cons a' as ih =>
    obtain ⟨b, rest, hb, hrest, rfl⟩ := mapM_cons_ok h
    rcases List.mem_cons.1 ha with rfl | ha
    · exact ⟨b, List.mem_cons_self, hb⟩
    · obtain ⟨b', hb', hfa⟩ := ih hrest ha
      exact ⟨b', List.mem_cons_of_mem _ hb', hfa⟩

theorem origin_of_mapM_ok (h : as.mapM f = .ok bs) (hb : b ∈ bs) : ∃ a ∈ as, f a = .ok b := by
  induction as generalizing bs with
  | nil =>
    cases h
    cases hb
  | cons a as ih =>
    obtain ⟨b', rest, hb', hrest, rfl⟩ := mapM_cons_ok h
    rcases List.mem_cons.1 hb with rfl | hb
    · exact ⟨a, List.mem_cons_self, hb'⟩
    · obtain ⟨a', ha', hfa⟩ := ih hrest hb
      exact ⟨a', List.mem_cons_of_mem _ ha', hfa⟩

theorem mapM_ok_of_forall (h : ∀ a ∈ as, ∃ b, f a = .ok b) : ∃ bs, as.mapM f = .ok bs := by
  induction as with
  | nil => exact ⟨[], rfl⟩
  | cons a as ih =>
    obtain ⟨b, hb⟩ := h a List.mem_cons_self
    obtain ⟨rest, hrest⟩ := ih fun a' ha' => h a' (List.mem_cons_of_mem _ ha')
    refine ⟨b :: rest, ?_⟩
    rw [List.mapM_cons, hb, hrest]
    rfl

/-- Dropping arguments drops their results. -/
theorem mapM_filter_ok {p : α → Bool} {q : β → Bool} (hpq : ∀ a b, f a = .ok b → q b = p a)
    (h : as.mapM f = .ok bs) : (as.filter p).mapM f = .ok (bs.filter q) := by
  induction as generalizing bs with
  | nil =>
    cases h
    rfl
  | cons a as ih =>
    obtain ⟨b, rest, hb, hrest, rfl⟩ := mapM_cons_ok h
    rw [List.filter_cons, List.filter_cons, hpq a b hb]
    cases p a with
    | true =>
      rw [if_pos rfl, if_pos rfl, List.mapM_cons, hb, ih hrest]
      rfl
    | false =>
      rw [if_neg Bool.false_ne_true, if_neg Bool.false_ne_true]
      exact ih hrest

/-- What each result shares with its argument the lists share. -/
theorem map_of_mapM_ok {γ : Type} {g : α → γ} {g' : β → γ} (hg : ∀ a b, f a = .ok b → g' b = g a)
    (h : as.mapM f = .ok bs) : bs.map g' = as.map g := by
  induction as generalizing bs with
  | nil =>
    cases h
    rfl
  | cons a as ih =>
    obtain ⟨b, rest, hb, hrest, rfl⟩ := mapM_cons_ok h
    rw [List.map_cons, List.map_cons, hg a b hb, ih hrest]

end XioFlow.Lib
