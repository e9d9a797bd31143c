/-
  XioFlow.Lib.Cutoff

  Programs that may be cut off between two of their blocks.

  A process that dies leaves the state as the last of its blocks left it: `cut`
  is the state after a number of blocks.  `during` asks of a program what `wp`
  asks, and that `D` holds in every state on the way; `cut_of_during` is what
  it is for.
-/

import XioFlow.Lib.Wp

namespace XioFlow.Lib.Prog

variable {σ ε α β : Type}

/-! ## The state after some of the blocks -/

/-- The state when the program is cut off after `n` of its blocks. -/
def cut : Nat → Prog σ ε α → σ → σ
  | 0, _, s => s
  | _, ret _, s => s
  | _, throw _, s => s
  | n + 1, step b k, s =>
    match b s with
    | .ok (s', x) => cut n (k x) s'
    | .error _ => s

theorem cut_zero (p : Prog σ ε α) (s : σ) : cut 0 p s = s := by cases p <;> rfl

variable {k : β → Prog σ ε α} {handler : ε → Prog σ ε α}

variable {b : σ → Except ε (σ × β)} {s : σ} {p : Prog σ ε α}

theorem cut_tryCatch_step {n : Nat} {s' : σ} {x : β} (h : b s = .ok (s', x)) :
    cut (n + 1) (MonadExcept.tryCatch (step b k) handler) s =
      cut n (MonadExcept.tryCatch (k x) handler) s' := by
  change cut (n + 1) ((step b k).tryCatch handler) s = _
  rw [Prog.tryCatch, cut, h]
  rfl

theorem cut_tryCatch_error {n : Nat} {e : ε} (h : b s = .error e) :
    cut (n + 1) (MonadExcept.tryCatch (step b k) handler) s = cut n (handler e) s := by
  change cut (n + 1) ((step b k).tryCatch handler) s = _
  rw [Prog.tryCatch, cut, h]

/-- The number of blocks that take effect in a whole run. -/
def length : Prog σ ε α → σ → Nat
  | ret _, _ => 0
  | throw _, _ => 0
  | step b k, s =>
    match b s with
    | .ok (s', x) => length (k x) s' + 1
    | .error _ => 0

/-- Behind its last block a program is not cut off any more. -/
theorem cut_of_length_le {n : Nat} (h : length p s ≤ n) : cut n p s = (p.run s).1 := by
  induction p generalizing s n with
  | ret | throw => cases n <;> rfl
  | step b k ih =>
    rw [length] at h
    cases hb : b s with
    | error =>
      have hrun : ((step b k).run s).1 = s := by rw [run, hb]
      rw [hrun]
      cases n with
      | zero => rfl
      | succ => rw [cut, hb]
    | ok r =>
      rw [hb] at h
      change length (k r.2) r.1 + 1 ≤ n at h
      have hrun : ((step b k).run s).1 = ((k r.2).run r.1).1 := by rw [run, hb]
      cases n with
      | zero => omega
      | succ =>
        rw [hrun, cut, hb]
        exact ih r.2 (by omega)

/-- `D` holds from here to the end, and there the postcondition that belongs to the end. -/
def during (D : σ → Prop) :
    Prog σ ε α → (α → σ → Prop) → (ε → σ → Prop) → σ → Prop
  | ret a, Q, _, s => D s ∧ Q a s
  | throw e, _, E, s => D s ∧ E e s
  | step b k, Q, E, s => D s ∧
    match b s with
    | .ok (s', x) => during D (k x) Q E s'
    | .error e => E e s

variable {D : σ → Prop} {Q : α → σ → Prop} {E : ε → σ → Prop} {s : σ}

theorem during_step :
    during D (step b k) Q E s ↔ D s ∧
      match b s with
      | .ok (s', x) => during D (k x) Q E s'
      | .error e => E e s := by
  rw [during]

theorem cut_of_during (h : during D p Q E s) (n : Nat) : D (cut n p s) := by
  induction p generalizing s n with
  | ret | throw => cases n <;> exact h.1
  | step b k ih =>
    cases n with
    | zero => exact (during_step.1 h).1
    | succ n =>
      obtain ⟨hD, hrest⟩ := during_step.1 h
      rw [cut]
      cases hb : b s with
      | error => exact hD
      | ok r =>
        rw [hb] at hrest
        exact ih r.2 hrest n

theorem wp_of_during (h : during D p Q E s) : wp p Q E s := by
  induction p generalizing s with
  | ret => exact h.2
  | throw => exact h.2
  | step b k ih =>
    obtain ⟨hD, hrest⟩ := during_step.1 h
    unfold wp
    simp only [run]
    cases hb : b s with
    | error =>
      rw [hb] at hrest
      exact hrest
    | ok r =>
      rw [hb] at hrest
      exact ih r.2 hrest

theorem during.mono {Q' : α → σ → Prop} {E' : ε → σ → Prop} (h : during D p Q E s)
    (hQ : ∀ a s', D s' → Q a s' → Q' a s') (hE : ∀ e s', D s' → E e s' → E' e s') :
    during D p Q' E' s := by
  induction p generalizing s with
  | ret a => exact ⟨h.1, hQ a s h.1 h.2⟩
  | throw e => exact ⟨h.1, hE e s h.1 h.2⟩
  | step b k ih =>
    obtain ⟨hD, hrest⟩ := during_step.1 h
    refine during_step.2 ⟨hD, ?_⟩
    cases hb : b s with
    | error e =>
      rw [hb] at hrest
      exact hE e s hD hrest
    | ok r =>
      rw [hb] at hrest
      exact ih r.2 hrest

/-- Where `D` holds everywhere, only the end is left to ask for. -/
theorem during_of_forall (hD : ∀ s, D s) (h : wp p Q E s) : during D p Q E s := by
  induction p generalizing s with
  | ret | throw => exact ⟨hD s, h⟩
  | step b k ih =>
    refine during_step.2 ⟨hD s, ?_⟩
    unfold wp at h
    simp only [run] at h
    cases hb : b s with
    | error =>
      rw [hb] at h
      exact h
    | ok r =>
      rw [hb] at h
      exact ih r.2 h

/-! ## The rules -/

theorem during_pure {a : α} (hD : D s) (hQ : Q a s) : during D (pure a) Q E s := ⟨hD, hQ⟩

theorem during_throw {e : ε} (hD : D s) (hE : E e s) :
    during D (MonadExcept.throw e : Prog σ ε α) Q E s := ⟨hD, hE⟩

theorem during_bind {f : α → Prog σ ε β} {Q : β → σ → Prop}
    (h : during D p (fun a s' => during D (f a) Q E s') E s) : during D (p >>= f) Q E s := by
  induction p generalizing s with
  | ret => exact h.2
  | throw => exact h
  | step b k ih =>
    obtain ⟨hD, hrest⟩ := during_step.1 h
    change during D (step b fun x => (k x).bind f) Q E s
    refine during_step.2 ⟨hD, ?_⟩
    cases hb : b s with
    | error =>
      rw [hb] at hrest
      exact hrest
    | ok r =>
      rw [hb] at hrest
      exact ih r.2 hrest

theorem during_tryCatch (h : during D p Q (fun e s' => during D (handler e) Q E s') s) :
    during D (MonadExcept.tryCatch p handler) Q E s := by
  induction p generalizing s with
  | ret => exact h
  | throw => exact h.2
  | step b k ih =>
    obtain ⟨hD, hrest⟩ := during_step.1 h
    change during D ((step b k).tryCatch handler) Q E s
    rw [Prog.tryCatch]
    refine during_step.2 ⟨hD, ?_⟩
    cases hb : b s with
    | error =>
      rw [hb] at hrest
      exact hrest
    | ok r =>
      rw [hb] at hrest
      exact ih r.2 hrest

theorem during_block {f : σ → Except ε (σ × α)} (hD : D s)
    (hok : ∀ s' a, f s = .ok (s', a) → D s' ∧ Q a s') (herror : ∀ e, f s = .error e → E e s) :
    during D (block f) Q E s := by
  refine during_step.2 ⟨hD, ?_⟩
  cases hf : f s with
  | error e => exact herror e hf
  | ok r => exact hok r.1 r.2 hf

theorem during_read {f : σ → α} (hD : D s) (hQ : Q (f s) s) : during D (read f) Q E s :=
  ⟨hD, hD, hQ⟩

variable {Q : Unit → σ → Prop}

theorem during_modify {f : σ → σ} (hD : D s) (hD' : D (f s))
    (hQ : Q () (f s)) : during D (modify f) Q E s :=
  during_step.2 ⟨hD, hD', hQ⟩

theorem during_exec {f : σ → Except ε σ} (hD : D s)
    (hok : ∀ s', f s = .ok s' → D s' ∧ Q () s') (herror : ∀ e, f s = .error e → E e s) :
    during D (exec f) Q E s := by
  refine during_block hD (fun s' u h => ?_) fun e h => ?_
  · cases hf : f s with
    | error =>
      rw [hf] at h
      cases h
    | ok =>
      rw [hf] at h
      cases h
      exact hok _ hf
  · cases hf : f s with
    | error =>
      rw [hf] at h
      cases h
      exact herror _ hf
    | ok =>
      rw [hf] at h
      cases h

theorem during_check {f : σ → Except ε Unit} (hD : D s)
    (hok : f s = .ok () → Q () s) (herror : ∀ e, f s = .error e → E e s) :
    during D (check f) Q E s := by
  apply during_block hD
  · intro s' u h
    rw [checkBlock] at h
    cases hf : f s with
    | error =>
      rw [hf] at h
      cases h
    | ok =>
      rw [hf] at h
      cases h
      exact ⟨hD, hok hf⟩
  · intro e h
    rw [checkBlock] at h
    cases hf : f s with
    | error =>
      rw [hf] at h
      cases h
      exact herror _ hf
    | ok =>
      rw [hf] at h
      cases h

theorem during_onlyIf {b : Bool} {p : Prog σ ε Unit} (hD : D s)
    (htrue : b = true → during D p Q E s) (hfalse : b = false → Q () s) :
    during D (onlyIf b p) Q E s := by
  cases b with
  | false => exact ⟨hD, hfalse rfl⟩
  | true => exact htrue rfl

theorem during_throwIf {b : Bool} {e : ε} (hD : D s)
    (htrue : b = true → E e s) (hfalse : b = false → Q () s) :
    during D (throwIf b e) Q E s :=
  during_onlyIf hD (fun h => during_throw hD (htrue h)) hfalse

/-- On a part of the state the program goes through what it goes through alone. -/
theorem during_within {τ : Type} {part : Part τ σ} {D : τ → Prop} {Q : α → τ → Prop}
    {E : ε → τ → Prop} {t : τ}
    (h : during (fun s => D (part.put t s)) p (fun a s => Q a (part.put t s))
      (fun e s => E e (part.put t s)) (part.get t)) : during D (p.within part) Q E t := by
  induction p generalizing t with
  | ret | throw => simpa only [within, during, part.put_get] using h
  | step b k ih =>
    obtain ⟨hD, hrest⟩ := during_step.1 h
    rw [part.put_get] at hD
    rw [within]
    refine during_step.2 ⟨hD, ?_⟩
    cases hb : b (part.get t) with
    | error =>
      rw [hb] at hrest
      simpa only [part.put_get] using hrest
    | ok r =>
      rw [hb] at hrest
      apply ih r.2
      rw [part.get_put]
      simpa only [part.put_put] using hrest

end XioFlow.Lib.Prog
