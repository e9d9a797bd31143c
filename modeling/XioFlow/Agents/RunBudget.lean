/-
  XioFlow.Agents.RunBudget

  The limits of a run and what its agents have used of them.
-/

import XioFlow.Types

namespace XioFlow.Agents

/-! ## Sums -/

/-- `f` summed over a list. -/
def total {α : Type} (f : α → Nat) : List α → Nat
  | [] => 0
  | a :: l => f a + total f l

theorem total_append {α : Type} (f : α → Nat) (l : List α) (a : α) :
    total f (l ++ [a]) = total f l + f a := by
  induction l with
  | nil => exact Nat.add_comm (f a) 0
  | cons x l ih =>
    show f x + total f (l ++ [a]) = f x + total f l + f a
    rw [ih, Nat.add_assoc]

theorem total_set {α : Type} (f : α → Nat) {l : List α} {i : Nat} {a : α} (h : l[i]? = some a)
    (b : α) : total f (l.set i b) + f a = total f l + f b := by
  induction l generalizing i with
  | nil => cases h
  | cons x l ih =>
    cases i with
    | zero =>
      obtain rfl := Option.some.inj h
      show f b + total f l + f x = f x + total f l + f b
      omega
    | succ i =>
      have hrest := ih h
      show f x + total f (l.set i b) + f a = f x + total f l + f b
      omega

/-! ## The usage of a run -/

/-- The limits of a run, each a positive number. -/
structure AgentRunBudget where
  maxSteps : Nat
  maxAgents : Nat
  /-- outstanding commands: those that wait for resources and those that run -/
  maxPendingCommands : Nat
  positive : 0 < maxSteps ∧ 0 < maxAgents ∧ 0 < maxPendingCommands
  deriving DecidableEq

structure AgentRunUsage where
  budget : AgentRunBudget
  stepsUsed : Nat := 0
  agentsCreated : Nat := 0
  pendingCommands : Nat := 0
  deriving DecidableEq

def DEFAULT_AGENT_RUN_BUDGET : AgentRunBudget where
  maxSteps := 10000
  maxAgents := 1024
  maxPendingCommands := 64
  positive := by decide

/-- The maps `runs` and `budgetedRuns` of a runtime. -/
structure RunUsages where
  defaultRunBudget : AgentRunBudget
  runs : String → Option AgentRunUsage
  budgetedRuns : String → Bool

namespace RunUsages

/-- `runs.set(runId, usage)` -/
def set (r : RunUsages) (runId : String) (usage : AgentRunUsage) : RunUsages :=
  { r with runs := fun id => if id = runId then some usage else r.runs id }

/-- What `sync` does with an `AGENT_RUN_BUDGET` event. -/
def readBudget (runId : String) (budget : AgentRunBudget) (r : RunUsages) :
    Except String RunUsages :=
  if r.budgetedRuns runId then .error "Invalid or duplicate agent Run budget event"
  else
    let usage := match r.runs runId with
      | some usage => { usage with budget }
      | none => { budget }
    .ok { r.set runId usage with
      budgetedRuns := fun id => id = runId || r.budgetedRuns id }

/-- The limits of a run are written down on its first use. -/
def ensureRunBudget (runId : String) (r : RunUsages) : RunUsages :=
  match r.readBudget runId r.defaultRunBudget with
  | .ok r' => r'
  | .error _ => r

def pendingCommands (r : RunUsages) (runId : String) : Nat :=
  match r.runs runId with
  | some usage => usage.pendingCommands
  | none => 0

@[simp] theorem set_runs (r : RunUsages) (runId id : String) (usage : AgentRunUsage) :
    (r.set runId usage).runs id = if id = runId then some usage else r.runs id := rfl

end RunUsages
end XioFlow.Agents
