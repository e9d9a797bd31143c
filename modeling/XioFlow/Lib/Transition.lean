/-
  XioFlow.Lib.Transition

  Runs of labelled transition systems, and of machines whose steps are
  functions.

  An invariant is proved once per step; `Trace.invariant` and `Trace.relates`
  carry it along a run.  A condition on the steps of a run is part of the step
  relation (`Guarded`), so a theorem about the runs that meet a condition is a
  theorem about the traces of the guarded system.
-/

namespace XioFlow.Lib

universe u v

variable {σ : Type u} {ℓ : Type v}

/-! ## Traces -/

/-- A finite run from the first state to the last, with the labels of its steps. -/
inductive Trace (step : σ → ℓ → σ → Prop) : σ → List ℓ → σ → Prop where
  | nil (s : σ) : Trace step s [] s
  | cons {s s₁ s' : σ} {l : ℓ} {ls : List ℓ} (head : step s l s₁) (tail : Trace step s₁ ls s') :
      Trace step s (l :: ls) s'

/-- The steps of a system that meet a condition on the state before them. -/
def Guarded (cond : σ → ℓ → Prop) (step : σ → ℓ → σ → Prop) (s : σ) (l : ℓ) (s' : σ) : Prop :=
  cond s l ∧ step s l s'

namespace Trace

variable {step : σ → ℓ → σ → Prop}

variable {s' : σ} {ls : List ℓ}

/-- What every step preserves holds at the end of a run. -/
theorem invariant {I : σ → Prop} (hstep : ∀ s l s', I s → step s l s' → I s') {s : σ}
    (h : Trace step s ls s') (hs : I s) : I s' := by
  induction h with
  | nil s => exact hs
  | cons head tail ih => exact ih (hstep _ _ _ hs head)

/-- A preorder that every step respects relates the ends of a run. -/
theorem relates {R : σ → σ → Prop} (hrefl : ∀ s, R s s) (htrans : ∀ a b c, R a b → R b c → R a c)
    (hstep : ∀ s l s', step s l s' → R s s') {s : σ} (h : Trace step s ls s') : R s s' := by
  induction h with
  | nil s => exact hrefl s
  | cons head tail ih => exact htrans _ _ _ (hstep _ _ _ head) ih

/-- A run in which every step takes from a measure is no longer than the measure. -/
theorem length_le {I : σ → Prop} {μ : σ → Nat}
    (hstep : ∀ s l s', I s → step s l s' → I s' ∧ μ s' < μ s) {s : σ} (h : Trace step s ls s')
    (hs : I s) : ls.length ≤ μ s := by
  induction h with
  | nil s => exact Nat.zero_le _
  | cons head tail ih =>
    obtain ⟨hI, hlt⟩ := hstep _ _ _ hs head
    have hrest := ih hI
    rw [List.length_cons]
    omega

/-- A condition on the labels can be checked on the list of them. -/
theorem guard {cond : ℓ → Prop} {s : σ} (h : Trace step s ls s') (hls : ∀ l ∈ ls, cond l) :
    Trace (Guarded (fun _ => cond) step) s ls s' := by
  induction h with
  | nil s => exact .nil s
  | cons head tail ih =>
    exact .cons ⟨hls _ List.mem_cons_self, head⟩
      (ih fun l hl => hls l (List.mem_cons_of_mem _ hl))

end Trace

/-! ## Machines -/

section Machine

variable (after : ℓ → σ → σ)

/-- The state after a list of steps. -/
def afterAll (s : σ) : List ℓ → σ
  | [] => s
  | l :: ls => afterAll (after l s) ls

/-- Every step of the list meets a condition on the state it is taken in. -/
def Along (P : σ → ℓ → Prop) : σ → List ℓ → Prop
  | _, [] => True
  | s, l :: ls => P s l ∧ Along P (after l s) ls

variable {after}

theorem afterAll_append (s : σ) (ls ls' : List ℓ) :
    afterAll after s (ls ++ ls') = afterAll after (afterAll after s ls) ls' := by
  induction ls generalizing s with
  | nil => rfl
  | cons l ls ih => exact ih (after l s)

variable {P : σ → ℓ → Prop} {ls : List ℓ} {I : σ → Prop} {Q : σ → ℓ → Prop} {s : σ}

theorem along_append {ls' : List ℓ} :
    Along after P s (ls ++ ls') ↔ Along after P s ls ∧ Along after P (afterAll after s ls) ls' := by
  induction ls generalizing s with
  | nil => simp [Along, afterAll]
  | cons l ls ih =>
    simp only [List.cons_append, Along, afterAll]
    rw [ih, and_assoc]

/-- What every step preserves holds after any list of steps. -/
theorem afterAll_invariant (hstep : ∀ s l, I s → I (after l s)) (hs : I s) (ls : List ℓ) :
    I (afterAll after s ls) := by
  induction ls generalizing s with
  | nil => exact hs
  | cons l ls ih => exact ih (hstep s l hs)

/-- Along a run means at each of its steps, in the state the steps before it lead to. -/
theorem along_iff :
    Along after P s ls ↔
      ∀ pre l post, ls = pre ++ l :: post → P (afterAll after s pre) l := by
  induction ls generalizing s with
  | nil => simp [Along]
  | cons l ls ih =>
    rw [Along, ih]
    constructor
    · rintro ⟨hl, hrest⟩ pre l' post heq
      cases pre with
      | nil =>
        cases heq
        exact hl
      | cons p pre =>
        rw [List.cons_append, List.cons.injEq] at heq
        obtain ⟨rfl, heq⟩ := heq
        exact hrest pre l' post heq
    · intro h
      refine ⟨h [] l ls rfl, fun pre l' post heq => ?_⟩
      exact h (l :: pre) l' post (by rw [heq, List.cons_append])

theorem along_and :
    Along after (fun s l => P s l ∧ Q s l) s ls ↔ Along after P s ls ∧ Along after Q s ls := by
  induction ls generalizing s with
  | nil => simp [Along]
  | cons l ls ih =>
    simp only [Along]
    rw [ih, and_and_and_comm]

/-- Two conditions that agree at every step agree along every run. -/
theorem along_congr (h : ∀ s l, P s l ↔ Q s l) :
    Along after P s ls ↔ Along after Q s ls := by
  induction ls generalizing s with
  | nil => exact Iff.rfl
  | cons l ls ih =>
    simp only [Along]
    rw [h, ih]

/-- Under an invariant one condition on the steps gives another. -/
theorem Along.imp (hstep : ∀ s l, I s → P s l → Q s l ∧ I (after l s)) (hs : I s)
    (h : Along after P s ls) : Along after Q s ls := by
  induction ls generalizing s with
  | nil => trivial
  | cons l ls ih =>
    obtain ⟨hQ, hI⟩ := hstep s l hs h.1
    exact ⟨hQ, ih hI h.2⟩

/-- What every step under a condition preserves holds after a run that meets the condition. -/
theorem Along.invariant (hstep : ∀ s l, I s → P s l → I (after l s)) (hs : I s)
    (h : Along after P s ls) : I (afterAll after s ls) := by
  induction ls generalizing s with
  | nil => exact hs
  | cons l ls ih => exact ih (hstep s l hs h.1) h.2

theorem Along.relates {R : σ → σ → Prop} (hrefl : ∀ s, R s s)
    (htrans : ∀ a b c, R a b → R b c → R a c) (hstep : ∀ s l, P s l → R s (after l s))
    (h : Along after P s ls) : R s (afterAll after s ls) := by
  induction ls generalizing s with
  | nil => exact hrefl s
  | cons l ls ih => exact htrans _ _ _ (hstep s l h.1) (ih h.2)

/-- Where each step keeps `G` exactly under its condition, `G` holds in every state of a run
    exactly where the condition does at every step. -/
theorem along_iff_of_step {G : σ → Prop} {C : σ → ℓ → Prop} (hinv : ∀ s l, I s → I (after l s))
    (hstep : ∀ s l, I s → G s → (G (after l s) ↔ C s l)) (hI : I s) (hG : G s)
    (ls : List ℓ) : (∀ pre, pre <+: ls → G (afterAll after s pre)) ↔ Along after C s ls := by
  induction ls generalizing s with
  | nil =>
    refine iff_of_true (fun pre hpre => ?_) trivial
    rw [List.prefix_nil.1 hpre]
    exact hG
  | cons l ls ih =>
    constructor
    · intro h
      have hfirst : G (after l s) := h [l] ⟨ls, rfl⟩
      refine ⟨(hstep s l hI hG).1 hfirst, (ih (hinv s l hI) hfirst).1 fun pre hpre => ?_⟩
      exact h (l :: pre) ((List.prefix_cons_inj l).2 hpre)
    · rintro ⟨hC, hrest⟩ pre hpre
      have hfirst : G (after l s) := (hstep s l hI hG).2 hC
      cases pre with
      | nil => exact hG
      | cons l' pre =>
        obtain ⟨rfl, htail⟩ := List.cons_prefix_cons.1 hpre
        exact (ih (hinv _ _ hI) hfirst).2 hrest pre htail

end Machine
end XioFlow.Lib
