/-
  XioFlow.Lib.Inquiry

  Computations that ask an environment and go on with its answers.

  An environment may fail to answer, and a question may depend on the answers
  before it.  `run` is the computation in one environment; `asked` lists the
  questions it comes to put there.  It has a result exactly when each of these
  is answered (`run_isOk_iff`), whatever the answers are.
-/

namespace XioFlow.Lib

/-- A computation over questions `Q`, each with its own type of answers. -/
inductive Inquiry (Q : Type) (A : Q → Type) (α : Type) : Type where
  | done (a : α)
  | ask (q : Q) (k : A q → Inquiry Q A α)

namespace Inquiry

variable {Q : Type} {A : Q → Type} {ε α : Type}

/-- What an environment answers to each question. -/
abbrev Environment (Q : Type) (A : Q → Type) (ε : Type) : Type := (q : Q) → Except ε (A q)

/-- The result in an environment; the first question without an answer ends it. -/
def run (answer : Environment Q A ε) : Inquiry Q A α → Except ε α
  | done a => .ok a
  | ask q k =>
    match answer q with
    | .ok a => (k a).run answer
    | .error e => .error e

/-- The questions it puts in an environment, in order. -/
def asked (answer : Environment Q A ε) : Inquiry Q A α → List Q
  | done _ => []
  | ask q k =>
    match answer q with
    | .ok a => q :: (k a).asked answer
    | .error _ => [q]

/-- The environment answers the question. -/
def Answers (answer : Environment Q A ε) (q : Q) : Prop := ∃ a, answer q = .ok a

/-- It has a result exactly when every question it puts is answered. -/
theorem run_isOk_iff (answer : Environment Q A ε) (p : Inquiry Q A α) :
    (∃ a, p.run answer = .ok a) ↔ ∀ q ∈ p.asked answer, Answers answer q := by
  induction p with
  | done a => exact ⟨fun _ q hq => absurd hq List.not_mem_nil, fun _ => ⟨a, rfl⟩⟩
  | ask q k ih =>
    rw [run, asked]
    cases hanswer : answer q with
    | error e =>
      constructor
      · rintro ⟨a, ha⟩
        cases ha
      · intro hall
        have hthis : Answers answer q := hall q (List.mem_singleton.2 rfl)
        obtain ⟨a, ha⟩ := hthis
        rw [hanswer] at ha
        cases ha
    | ok a =>
      have hthis : Answers answer q := ⟨a, hanswer⟩
      show (∃ b, (k a).run answer = .ok b) ↔ ∀ q' ∈ q :: (k a).asked answer, _
      rw [ih a, List.forall_mem_cons]
      exact ⟨fun hrest => ⟨hthis, hrest⟩, fun hall => hall.2⟩

/-! ## One question -/

section Ask

variable {answer : Environment Q A ε} {q : Q} {k : A q → Inquiry Q A α} {a : A q}

theorem run_of_ok (h : answer q = .ok a) : (ask q k).run answer = (k a).run answer := by
  rw [run, h]

theorem asked_of_ok (h : answer q = .ok a) :
    (ask q k).asked answer = q :: (k a).asked answer := by
  rw [asked, h]

theorem run_of_error {e : ε} (h : answer q = .error e) : (ask q k).run answer = .error e := by
  rw [run, h]

theorem asked_of_error {e : ε} (h : answer q = .error e) : (ask q k).asked answer = [q] := by
  rw [asked, h]

theorem mem_asked_self (answer : Environment Q A ε) : q ∈ (ask q k).asked answer := by
  rw [asked]
  cases answer q <;> exact List.mem_cons_self

end Ask

end Inquiry
end XioFlow.Lib
