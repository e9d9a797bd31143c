/-
  XioFlow.Lib.Prog

  Programs made of atomic blocks over a shared state.

  A program is a tree: it returns, it throws, or it runs one atomic block and
  goes on with the value the block produced.  A block that fails leaves the
  state as it found it, which is what a database does with a failed statement
  and with a rolled back transaction.  Two readings of the same tree are
  developed here: `run`, the program alone from start to end, and `Blocks`,
  what each block does from any state at all, so that others may move the
  state between any two blocks.
-/

import Mathlib.Logic.Relation

namespace XioFlow.Lib

/-- A program over the state `σ` with errors `ε` and result `α`. -/
inductive Prog (σ ε α : Type) : Type 1 where
  | ret (a : α)
  | throw (e : ε)
  | step {β : Type} (block : σ → Except ε (σ × β)) (k : β → Prog σ ε α)

namespace Prog

variable {σ ε α β γ : Type}

/-! ## The monad -/

/-- Sequential composition: an error skips the rest. -/
def bind : Prog σ ε α → (α → Prog σ ε β) → Prog σ ε β
  | ret a, f => f a
  | throw e, _ => throw e
  | step block k, f => step block fun x => (k x).bind f

/-- Run the handler on an error, whether a `throw` or a failed block raised it. -/
def tryCatch : Prog σ ε α → (ε → Prog σ ε α) → Prog σ ε α
  | ret a, _ => ret a
  | throw e, handler => handler e
  | step (β := β) block k, handler =>
    step (β := Except ε β)
      (fun s => match block s with
        | .ok (s', x) => .ok (s', .ok x)
        | .error e => .ok (s, .error e))
      (fun r => match r with
        | .ok x => (k x).tryCatch handler
        | .error e => handler e)

instance : Monad (Prog σ ε) where
  pure := ret
  bind := bind

instance : MonadExceptOf ε (Prog σ ε) where
  throw := throw
  tryCatch := tryCatch

/-- One atomic block that computes a value and the next state, or fails. -/
def block (f : σ → Except ε (σ × α)) : Prog σ ε α := step f ret

/-- One atomic read. -/
def read (f : σ → α) : Prog σ ε α := block fun s => .ok (s, f s)

/-- The block of a check: it fails or changes nothing. -/
def checkBlock (f : σ → Except ε Unit) (s : σ) : Except ε (σ × Unit) :=
  match f s with
  | .ok _ => .ok (s, ())
  | .error e => .error e

/-- One atomic check: it fails or lets the program go on. -/
def check (f : σ → Except ε Unit) : Prog σ ε Unit := block (checkBlock f)

/-- One atomic write that cannot fail. -/
def modify (f : σ → σ) : Prog σ ε Unit := block fun s => .ok (f s, ())

/-- One atomic write that may fail. -/
def exec (f : σ → Except ε σ) : Prog σ ε Unit :=
  block fun s => match f s with
    | .ok s' => .ok (s', ())
    | .error e => .error e

/-- Run a part only when a condition holds. -/
def onlyIf (b : Bool) (p : Prog σ ε Unit) : Prog σ ε Unit := if b then p else pure ()

/-- Fail when a condition holds. -/
def throwIf (b : Bool) (e : ε) : Prog σ ε Unit := onlyIf b (throw e)

/-! ## Running a program alone -/

/-- Run the program with nothing between its blocks. -/
def run : Prog σ ε α → σ → σ × Except ε α
  | ret a, s => (s, .ok a)
  | throw e, s => (s, .error e)
  | step b k, s =>
    match b s with
    | .ok (s', x) => (k x).run s'
    | .error e => (s, .error e)

/-- The whole program as one block: its errors take the state back to where it began. -/
def transaction (p : Prog σ ε α) : Prog σ ε α :=
  block fun s =>
    match p.run s with
    | (s', .ok a) => .ok (s', a)
    | (_, .error e) => .error e

@[simp] theorem run_pure (a : α) (s : σ) : (pure a : Prog σ ε α).run s = (s, .ok a) := rfl

@[simp] theorem run_ret (a : α) (s : σ) : (ret a : Prog σ ε α).run s = (s, .ok a) := rfl

@[simp] theorem run_throw (e : ε) (s : σ) : (throw e : Prog σ ε α).run s = (s, .error e) := rfl

theorem run_bind (p : Prog σ ε α) (f : α → Prog σ ε β) (s : σ) :
    (p >>= f).run s =
      match p.run s with
      | (s', .ok a) => (f a).run s'
      | (s', .error e) => (s', .error e) := by
  induction p generalizing s with
  | ret => rfl
  | throw => rfl
  | step b k ih =>
    change (step b fun x => (k x).bind f).run s = _
    simp only [run]
    cases b s with
    | error => rfl
    | ok r => exact ih r.2 r.1

variable {f : α → Prog σ ε β} {s' : σ}

variable {p : Prog σ ε α} {s : σ} {a : α} {u : Unit} {e : ε} {b : Bool}

theorem run_bind_of_ok (h : p.run s = (s', .ok a)) :
    (p >>= f).run s = (f a).run s' := by rw [run_bind, h]

/-- A value computed from the result changes only the result. -/
theorem run_bind_pure (p : Prog σ ε α) (f : α → β) (s : σ) :
    (p >>= fun a => pure (f a)).run s = ((p.run s).1, (p.run s).2.map f) := by
  rw [run_bind]
  rcases p.run s with ⟨s', e | a⟩
  · rfl
  · rfl

/-- A handler that does not throw leaves no error. -/
theorem run_tryCatch_pure (p : Prog σ ε α) (a : α) (s : σ) :
    ∃ s' b, (MonadExcept.tryCatch p fun _ => pure a).run s = (s', .ok b) := by
  induction p generalizing s with
  | ret b => exact ⟨s, b, rfl⟩
  | throw => exact ⟨s, a, rfl⟩
  | step block k ih =>
    change ∃ s' b, ((step block k).tryCatch fun _ => ret a).run s = (s', .ok b)
    rw [Prog.tryCatch]
    simp only [run]
    cases block s with
    | error => exact ⟨s, a, rfl⟩
    | ok r => exact ih r.2 r.1

theorem run_block (f : σ → Except ε (σ × α)) (s : σ) :
    (block f).run s = match f s with
      | .ok (s', a) => (s', .ok a)
      | .error e => (s, .error e) := by
  unfold block
  simp only [run]

@[simp] theorem run_read (f : σ → α) (s : σ) :
    (read f : Prog σ ε α).run s = (s, .ok (f s)) := rfl

@[simp] theorem run_modify (f : σ → σ) (s : σ) :
    (modify f : Prog σ ε Unit).run s = (f s, .ok ()) := rfl

theorem checkBlock_ok {f : σ → Except ε Unit} (h : checkBlock f s = .ok (s', u)) :
    s' = s ∧ f s = .ok () := by
  unfold checkBlock at h
  cases hf : f s with
  | error =>
    rw [hf] at h
    cases h
  | ok =>
    rw [hf] at h
    cases h
    exact ⟨rfl, rfl⟩

theorem run_check (f : σ → Except ε Unit) (s : σ) :
    (check f).run s = match f s with
      | .ok _ => (s, .ok ())
      | .error e => (s, .error e) := by
  unfold check checkBlock
  rw [run_block]
  cases f s <;> rfl

theorem run_exec (f : σ → Except ε σ) (s : σ) :
    (exec f).run s = match f s with
      | .ok s' => (s', .ok ())
      | .error e => (s, .error e) := by
  unfold exec
  rw [run_block]
  cases f s <;> rfl

theorem run_transaction (p : Prog σ ε α) (s : σ) :
    (transaction p).run s =
      match p.run s with
      | (s', .ok a) => (s', .ok a)
      | (_, .error e) => (s, .error e) := by
  unfold transaction
  rw [run_block]
  rcases p.run s with ⟨s', _ | a⟩ <;> rfl

/-- A transaction that throws leaves the state as it was. -/
theorem transaction_error (h : (transaction p).run s = (s', .error e)) : s' = s := by
  rw [run_transaction] at h
  split at h
  · cases h
  · exact (congrArg Prod.fst h).symm

/-! ## Taking a successful run apart -/

theorem bind_ok {b : β} (h : (p >>= f).run s = (s', .ok b)) :
    ∃ a s₁, p.run s = (s₁, .ok a) ∧ (f a).run s₁ = (s', .ok b) := by
  rw [run_bind] at h
  rcases hp : p.run s with ⟨s₁, e | a⟩
  · rw [hp] at h
    cases h
  · rw [hp] at h
    exact ⟨a, s₁, rfl, h⟩

theorem transaction_ok (h : (transaction p).run s = (s', .ok a)) : p.run s = (s', .ok a) := by
  rw [run_transaction] at h
  rcases hp : p.run s with ⟨s₁, e | b⟩
  · rw [hp] at h
    cases h
  · rw [hp] at h
    exact h

/-- A run whose answer was looked at is a run that returned. -/
theorem run_of_answer {f : α → β} {b : β} (h : (p.run s).2.toOption.map f = some b) :
    ∃ a, p.run s = ((p.run s).1, .ok a) ∧ f a = b := by
  rcases hp : p.run s with ⟨s', e | a⟩
  · rw [hp] at h
    cases h
  · rw [hp] at h
    exact ⟨a, rfl, Option.some.inj h⟩

theorem pure_ok {b : α} (h : (pure a : Prog σ ε α).run s = (s', .ok b)) : s' = s ∧ b = a := by
  cases h
  exact ⟨rfl, rfl⟩

theorem throw_ok (h : (MonadExcept.throw e : Prog σ ε α).run s = (s', .ok a)) : False := by
  cases h

theorem read_ok {f : σ → α} (h : (read f : Prog σ ε α).run s = (s', .ok a)) : s' = s ∧ a = f s := by
  cases h
  exact ⟨rfl, rfl⟩

theorem modify_ok {f : σ → σ} (h : (modify f : Prog σ ε Unit).run s = (s', .ok u)) : s' = f s := by
  cases h
  rfl

theorem check_ok {f : σ → Except ε Unit} (h : (check f).run s = (s', .ok u)) :
    s' = s ∧ f s = .ok () := by
  rw [run_check] at h
  cases hf : f s with
  | error =>
    rw [hf] at h
    cases h
  | ok =>
    rw [hf] at h
    cases h
    exact ⟨rfl, rfl⟩

theorem exec_ok {f : σ → Except ε σ} (h : (exec f).run s = (s', .ok u)) : f s = .ok s' := by
  rw [run_exec] at h
  cases hf : f s with
  | error =>
    rw [hf] at h
    cases h
  | ok =>
    rw [hf] at h
    cases h
    rfl

theorem block_ok {f : σ → Except ε (σ × α)} (h : (block f).run s = (s', .ok a)) :
    f s = .ok (s', a) := by
  rw [run_block] at h
  cases hf : f s with
  | error =>
    rw [hf] at h
    cases h
  | ok v =>
    rw [hf] at h
    obtain ⟨s₁, b⟩ := v
    cases h
    rfl

theorem onlyIf_ok {p : Prog σ ε Unit} (h : (onlyIf b p).run s = (s', .ok u)) :
    (b = false ∧ s' = s) ∨ (b = true ∧ p.run s = (s', .ok u)) := by
  cases b with
  | false => exact Or.inl ⟨rfl, (pure_ok h).1⟩
  | true => exact Or.inr ⟨rfl, h⟩

theorem throwIf_ok (h : (throwIf b e).run s = (s', .ok u)) : s' = s ∧ b = false := by
  rcases onlyIf_ok h with ⟨hb, hs⟩ | ⟨_, hthrow⟩
  · exact ⟨hs, hb⟩
  · exact (throw_ok hthrow).elim

/-! ## Programs that fail without a trace -/

/-- A run that ends with an error leaves the state as it found it. -/
def Atomic (p : Prog σ ε α) : Prop := ∀ s s' e, p.run s = (s', .error e) → s' = s

/-- The program changes nothing, however it ends. -/
def ReadOnly (p : Prog σ ε α) : Prop := ∀ s, (p.run s).1 = s

theorem atomic_transaction (p : Prog σ ε α) : Atomic (transaction p) :=
  fun _ _ _ h => transaction_error h

theorem atomic_block (f : σ → Except ε (σ × α)) : Atomic (block f) := by
  intro s s' e h
  rw [run_block] at h
  split at h
  · cases h
  · cases h
    rfl

theorem atomic_exec (f : σ → Except ε σ) : Atomic (exec f) := atomic_block _

theorem ReadOnly.atomic (h : ReadOnly p) : Atomic p := by
  intro s s' e hrun
  have hs := h s
  rw [hrun] at hs
  exact hs

theorem readOnly_pure (a : α) : ReadOnly (pure a : Prog σ ε α) := fun _ => rfl

theorem readOnly_throw (e : ε) : ReadOnly (MonadExcept.throw e : Prog σ ε α) := fun _ => rfl

theorem readOnly_read (f : σ → α) : ReadOnly (read f : Prog σ ε α) := fun _ => rfl

theorem readOnly_check (f : σ → Except ε Unit) : ReadOnly (check f) := by
  intro s
  rw [run_check]
  cases f s <;> rfl

theorem readOnly_onlyIf {p : Prog σ ε Unit} (hp : ReadOnly p) : ReadOnly (onlyIf b p) := by
  cases b
  · exact readOnly_pure ()
  · exact hp

theorem readOnly_throwIf (b : Bool) (e : ε) : ReadOnly (throwIf b e : Prog σ ε Unit) :=
  readOnly_onlyIf (readOnly_throw e)

theorem ReadOnly.bind (hp : ReadOnly p) (hf : ∀ a, ReadOnly (f a)) : ReadOnly (p >>= f) := by
  intro s
  rw [run_bind]
  have hs := hp s
  rcases hrun : p.run s with ⟨s₁, e | a⟩
  · rw [hrun] at hs
    exact hs
  · rw [hrun] at hs
    exact (hf a s₁).trans hs

/-- After a part that changes nothing, the rest decides. -/
theorem ReadOnly.atomic_bind (hp : ReadOnly p) (hf : ∀ a, Atomic (f a)) : Atomic (p >>= f) := by
  intro s s' e h
  rw [run_bind] at h
  have hs := hp s
  rcases hrun : p.run s with ⟨s₁, e₁ | a⟩
  · rw [hrun] at h hs
    cases h
    exact hs
  · rw [hrun] at h hs
    rw [hf a s₁ s' e h]
    exact hs

/-- Only the last part writes, and it cannot fail after it has written. -/
theorem Atomic.bind_pure (hp : Atomic p) (g : α → β) :
    Atomic (p >>= fun a => (pure (g a) : Prog σ ε β)) := by
  intro s s' e h
  rw [run_bind] at h
  rcases hrun : p.run s with ⟨s₁, e₁ | a⟩
  · rw [hrun] at h
    cases h
    exact hp _ _ _ hrun
  · rw [hrun] at h
    cases h

/-! ## What every block does, whatever happens between the blocks -/

/-- Every block that succeeds, from whatever state it runs in, relates the states around it. -/
def Blocks (R : σ → σ → Prop) : Prog σ ε α → Prop
  | ret _ => True
  | throw _ => True
  | step block k => (∀ s s' x, block s = .ok (s', x) → R s s') ∧ ∀ x, Blocks R (k x)

section Blocks

variable {R : σ → σ → Prop}

theorem blocks_pure (a : α) : Blocks R (pure a : Prog σ ε α) := trivial

theorem blocks_throw (e : ε) : Blocks R (MonadExcept.throw e : Prog σ ε α) := trivial

variable {p : Prog σ ε α}

theorem Blocks.bind {f : α → Prog σ ε β} (hp : Blocks R p) (hf : ∀ a, Blocks R (f a)) :
    Blocks R (p >>= f) := by
  induction p with
  | ret a => exact hf a
  | throw => trivial
  | step block k ih => exact ⟨hp.1, fun x => ih x (hp.2 x)⟩

theorem Blocks.mono {S : σ → σ → Prop} (hp : Blocks R p) (h : ∀ s s', R s s' → S s s') :
    Blocks S p := by
  induction p with
  | ret | throw => trivial
  | step block k ih => exact ⟨fun s s' x hx => h s s' (hp.1 s s' x hx), fun x => ih x (hp.2 x)⟩

theorem blocks_block {f : σ → Except ε (σ × α)} (h : ∀ s s' a, f s = .ok (s', a) → R s s') :
    Blocks R (block f) := ⟨h, fun _ => trivial⟩

theorem blocks_modify {f : σ → σ} (h : ∀ s, R s (f s)) : Blocks R (modify f : Prog σ ε Unit) := by
  refine blocks_block fun s s' u heq => ?_
  cases heq
  exact h s

theorem blocks_exec {f : σ → Except ε σ} (h : ∀ s s', f s = .ok s' → R s s') :
    Blocks R (exec f) := by
  refine blocks_block fun s s' u heq => ?_
  cases hf : f s with
  | error =>
    rw [hf] at heq
    cases heq
  | ok =>
    rw [hf] at heq
    cases heq
    exact h s _ hf

/-- A transaction is one block, so what it does is what it does when it runs alone. -/
theorem blocks_transaction (h : ∀ s s' a, (transaction p).run s = (s', .ok a) → R s s') :
    Blocks R (transaction p) := by
  refine blocks_block fun s s' a heq => h s s' a ?_
  rw [run_transaction]
  rcases hrun : p.run s with ⟨s₁, e | b⟩
  · rw [hrun] at heq
    cases heq
  · rw [hrun] at heq
    cases heq
    rfl

section Preorder

variable (hrefl : ∀ s, R s s)

include hrefl

theorem blocks_read (f : σ → α) : Blocks R (read f : Prog σ ε α) := by
  refine blocks_block fun s s' a heq => ?_
  cases heq
  exact hrefl s

theorem blocks_check (f : σ → Except ε Unit) : Blocks R (check f) := by
  refine blocks_block fun s s' u heq => ?_
  rw [(checkBlock_ok heq).1]
  exact hrefl s

/-- What every block respects, the whole run respects. -/
theorem Blocks.run {p : Prog σ ε α} (htrans : ∀ a b c, R a b → R b c → R a c) (hp : Blocks R p)
    (s : σ) : R s (p.run s).1 := by
  induction p generalizing s with
  | ret | throw => exact hrefl s
  | step block k ih =>
    simp only [Prog.run]
    cases hblock : block s with
    | error => exact hrefl s
    | ok r => exact htrans _ _ _ (hp.1 s r.1 r.2 hblock) (ih r.2 (hp.2 r.2) r.1)

end Preorder

/-- A transaction respects what each of its parts respects. -/
theorem Blocks.transaction (hrefl : ∀ s, R s s) (htrans : ∀ a b c, R a b → R b c → R a c)
    (hp : Blocks R p) : Blocks R (transaction p) := by
  refine blocks_transaction fun s s' a hrun => ?_
  have hs := Blocks.run hrefl htrans hp s
  rw [transaction_ok hrun] at hs
  exact hs

theorem blocks_onlyIf {b : Bool} {p : Prog σ ε Unit} (hp : Blocks R p) :
    Blocks R (onlyIf b p) := by
  cases b
  · exact blocks_pure ()
  · exact hp

theorem blocks_throwIf (b : Bool) (e : ε) : Blocks R (throwIf b e : Prog σ ε Unit) :=
  blocks_onlyIf (blocks_throw e)

end Blocks

/-! ## Programs over a part of a larger state -/

/-- A part of the state `τ` that can be read and replaced on its own. -/
structure Part (τ σ : Type) where
  get : τ → σ
  put : τ → σ → τ
  get_put : ∀ t s, get (put t s) = s
  put_get : ∀ t, put t (get t) = t
  put_put : ∀ t s s', put (put t s) s' = put t s'

variable {τ : Type}

/-- The program run on the part. -/
def within (part : Part τ σ) : Prog σ ε α → Prog τ ε α
  | ret a => ret a
  | throw e => throw e
  | step block k =>
    step (fun t => match block (part.get t) with
      | .ok (s', x) => .ok (part.put t s', x)
      | .error e => .error e) fun x => (k x).within part

/-- On the part it does what it does alone, and it leaves the rest as it was. -/
theorem run_within (part : Part τ σ) (p : Prog σ ε α) (t : τ) :
    (p.within part).run t = (part.put t (p.run (part.get t)).1, (p.run (part.get t)).2) := by
  induction p generalizing t with
  | ret | throw => simp only [within, run, part.put_get]
  | step block k ih =>
    simp only [within, run]
    cases block (part.get t) with
    | error => simp only [part.put_get]
    | ok r =>
      obtain ⟨s', x⟩ := r
      simp only
      rw [ih, part.get_put, part.put_put]

/-- What the blocks do to the part is what they do to the whole. -/
theorem Blocks.within {R : σ → σ → Prop} {S : τ → τ → Prop} {part : Part τ σ} (hp : Blocks R p)
    (hput : ∀ t s, R (part.get t) s → S t (part.put t s)) : Blocks S (p.within part) := by
  induction p with
  | ret => trivial
  | throw e => trivial
  | step block k ih =>
    refine ⟨fun t t' x heq => ?_, fun x => ih x (hp.2 x)⟩
    cases hblock : block (part.get t) with
    | error =>
      simp only [hblock] at heq
      cases heq
    | ok r =>
      simp only [hblock] at heq
      cases heq
      exact hput t r.1 (hp.1 _ _ _ hblock)

end Prog
end XioFlow.Lib
