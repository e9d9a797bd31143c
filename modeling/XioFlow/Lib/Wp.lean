/-
  XioFlow.Lib.Wp

  Weakest preconditions of programs that run alone.

  `wp p Q E s` says that the run of `p` from `s` ends well: `Q` holds of the
  value and the state when it returns, `E` of the error and the state when it
  throws.  There is one rule for each way of building a program, all of them
  equivalences, and one rule to use what is known of a part.
-/

import XioFlow.Lib.Prog

namespace XioFlow.Lib.Prog

variable {σ ε α β τ : Type}

/-- What the run from `s` must end in. -/
def wp (p : Prog σ ε α) (Q : α → σ → Prop) (E : ε → σ → Prop) (s : σ) : Prop :=
  match p.run s with
  | (s', .ok a) => Q a s'
  | (s', .error e) => E e s'

/-! ## Runs -/

variable {Q : α → σ → Prop} {E : ε → σ → Prop} {s' : σ} {p : Prog σ ε α} {s : σ}

theorem wp_of_ok {a : α} (h : p.run s = (s', .ok a)) :
    wp p Q E s ↔ Q a s' := by
  unfold wp
  rw [h]

theorem wp_of_error {e : ε} (h : p.run s = (s', .error e)) :
    wp p Q E s ↔ E e s' := by
  unfold wp
  rw [h]

/-- What a run ends in, by cases. -/
theorem wp_iff :
    wp p Q E s ↔ (∀ s' a, p.run s = (s', .ok a) → Q a s') ∧
      ∀ s' e, p.run s = (s', .error e) → E e s' := by
  rcases hrun : p.run s with ⟨s', e | a⟩
  · rw [wp_of_error hrun]
    constructor
    · intro h
      refine ⟨fun s₁ a heq => ?_, fun s₁ e₁ heq => ?_⟩
      · cases heq
      · cases heq
        exact h
    · exact fun h => h.2 s' e rfl
  · rw [wp_of_ok hrun]
    constructor
    · intro h
      refine ⟨fun s₁ a₁ heq => ?_, fun s₁ e heq => ?_⟩
      · cases heq
        exact h
      · cases heq
    · exact fun h => h.1 s' a rfl

/-- What holds however a run ends holds of the state it ends in. -/
theorem wp_state {I : σ → Prop} :
    wp p (fun _ s' => I s') (fun _ s' => I s') s ↔ I (p.run s).1 := by
  unfold wp
  rcases p.run s with ⟨s', e | a⟩
  · exact Iff.rfl
  · exact Iff.rfl

/-- The rule of consequence. -/
theorem wp.mono {Q' : α → σ → Prop} {E' : ε → σ → Prop} (h : wp p Q E s)
    (hQ : ∀ a s', Q a s' → Q' a s') (hE : ∀ e s', E e s' → E' e s') : wp p Q' E' s := by
  rw [wp_iff] at h ⊢
  exact ⟨fun s' a hrun => hQ a s' (h.1 s' a hrun), fun s' e hrun => hE e s' (h.2 s' e hrun)⟩

/-! ## One rule for each construction -/

@[simp] theorem wp_bind {f : α → Prog σ ε β} {Q : β → σ → Prop} :
    wp (p >>= f) Q E s ↔ wp p (fun a s' => wp (f a) Q E s') E s := by
  unfold wp
  rw [run_bind]
  rcases p.run s with ⟨s', e | a⟩
  · exact Iff.rfl
  · exact Iff.rfl

@[simp] theorem wp_modify {f : σ → σ} {Q : Unit → σ → Prop} :
    wp (modify f) Q E s ↔ Q () (f s) := Iff.rfl

theorem wp_onlyIf {b : Bool} {p : Prog σ ε Unit} {Q : Unit → σ → Prop} :
    wp (onlyIf b p) Q E s ↔ (b = true → wp p Q E s) ∧ (b = false → Q () s) := by
  cases b with
  | false => exact ⟨fun h => ⟨nofun, fun _ => h⟩, fun h => h.2 rfl⟩
  | true => exact ⟨fun h => ⟨fun _ => h, nofun⟩, fun h => h.1 rfl⟩

theorem wp_throwIf {b : Bool} {e : ε} {Q : Unit → σ → Prop} :
    wp (throwIf b e) Q E s ↔ (b = true → E e s) ∧ (b = false → Q () s) := wp_onlyIf

theorem run_tryCatch (p : Prog σ ε α) (handler : ε → Prog σ ε α) (s : σ) :
    (MonadExcept.tryCatch p handler).run s =
      match p.run s with
      | (s', .ok a) => (s', .ok a)
      | (s', .error e) => (handler e).run s' := by
  induction p generalizing s with
  | ret a => rfl
  | throw e => rfl
  | step block k ih =>
    change ((step block k).tryCatch handler).run s = _
    rw [Prog.tryCatch]
    simp only [run]
    cases block s with
    | error e => rfl
    | ok r => exact ih r.2 r.1

/-- It returns what it was to return, or what its handler returns. -/
theorem tryCatch_ok {handler : ε → Prog σ ε α} {a : α}
    (h : (MonadExcept.tryCatch p handler).run s = (s', .ok a)) :
    p.run s = (s', .ok a) ∨ ∃ s₁ e, p.run s = (s₁, .error e) ∧ (handler e).run s₁ = (s', .ok a) := by
  rw [run_tryCatch] at h
  rcases hp : p.run s with ⟨s₁, e | b⟩
  · rw [hp] at h
    exact Or.inr ⟨s₁, e, rfl, h⟩
  · rw [hp] at h
    exact Or.inl h

theorem wp_tryCatch {handler : ε → Prog σ ε α} :
    wp (MonadExcept.tryCatch p handler) Q E s ↔
      wp p Q (fun e s' => wp (handler e) Q E s') s := by
  unfold wp
  rw [run_tryCatch]
  rcases p.run s with ⟨s', e | a⟩
  · exact Iff.rfl
  · exact Iff.rfl

theorem wp_within {part : Part τ σ} {Q : α → τ → Prop} {E : ε → τ → Prop}
    {t : τ} :
    wp (p.within part) Q E t ↔
      wp p (fun a s' => Q a (part.put t s')) (fun e s' => E e (part.put t s')) (part.get t) := by
  unfold wp
  rw [run_within]
  rcases p.run (part.get t) with ⟨s', e | a⟩
  · exact Iff.rfl
  · exact Iff.rfl

/-! ## Programs that keep an invariant -/

/-- Whether it returns or throws, the program keeps what held. -/
def Keeps (I : σ → Prop) (p : Prog σ ε α) : Prop :=
  ∀ s, I s → wp p (fun _ s' => I s') (fun _ s' => I s') s

section Keeps

variable {I : σ → Prop} {p : Prog σ ε α}

theorem Keeps.state (h : Keeps I p) {s : σ} (hs : I s) : I (p.run s).1 :=
  wp_state.1 (h s hs)

theorem keeps_pure (a : α) : Keeps I (pure a : Prog σ ε α) := fun _ hs => hs

theorem keeps_throw (e : ε) : Keeps I (MonadExcept.throw e : Prog σ ε α) := fun _ hs => hs

theorem keeps_read (f : σ → α) : Keeps I (read f : Prog σ ε α) := fun _ hs => hs

theorem keeps_modify {f : σ → σ} (h : ∀ s, I s → I (f s)) : Keeps I (modify f : Prog σ ε Unit) :=
  fun s hs => h s hs

theorem Keeps.bind {f : α → Prog σ ε β} (hp : Keeps I p)
    (hf : ∀ a, Keeps I (f a)) : Keeps I (p >>= f) := by
  intro s hs
  rw [wp_bind]
  exact (hp s hs).mono (fun a s' hs' => hf a s' hs') fun _ _ hs' => hs'

theorem Keeps.tryCatch {handler : ε → Prog σ ε α} (hp : Keeps I p)
    (hh : ∀ e, Keeps I (handler e)) : Keeps I (MonadExcept.tryCatch p handler) := by
  intro s hs
  rw [wp_tryCatch]
  exact (hp s hs).mono (fun _ _ hs' => hs') fun e s' hs' => hh e s' hs'

theorem keeps_within {part : Part τ σ} {I : τ → Prop}
    (h : ∀ t, I t → Keeps (fun s => I (part.put t s)) p) : Keeps I (p.within part) := by
  intro t ht
  have hput : I (part.put t (part.get t)) := by
    rw [part.put_get]
    exact ht
  rw [wp_within]
  exact h t ht (part.get t) hput

end Keeps

end XioFlow.Lib.Prog
