/-
  XioFlow.Driver.NodeDriver

  The Node driver's `terminate`: signal the leader's group in three steps, and
  answer from what the process table lists at the end.

  The processes go on while the call runs.  A `World` holds what they are at
  each stage of the call: the table it reads, the table its probes meet, and
  what the sampling cycle has added to the leader's cumulative descendants.
-/

import XioFlow.Driver.Sampler

namespace XioFlow.Driver

open Lib

inductive StopScope where
  | directChild | processGroup | containmentCgroup | subreaperTree | trackedTree | unknown
  deriving DecidableEq

structure StopProcessResult extends Recovery.StopProcessResult where
  scope : StopScope
  residualPids : Option (List Nat) := none

namespace Node

/-! ## The stages of a call -/

inductive Signal where
  | sigint | sigterm | sigkill
  deriving DecidableEq

def Signal.index : Signal → Nat
  | sigint => 0
  | sigterm => 1
  | sigkill => 2

/-- What a round of waiting looks at: the table, the group before and after it, single pids. -/
inductive Part where
  | read | probe | reprobe | pidProbe (pid : Nat)

def Part.index : Part → Nat
  | read => 0
  | probe => 1
  | reprobe => 2
  | pidProbe _ => 3

/-- The moments at which the call looks at something. -/
inductive Stage where
  | call
  | treeRead
  | tracked
  | groupProbe | groupRead | groupReread | groupReprobe
  | beforeRead | beforeProbe (pid : Nat)
  | settled
  | look (signal : Signal) (round : Nat) (part : Part)
  | rescan
  | postRead
  | copied
  | finalRead | finalProbe (pid : Nat)
  | answered

/-- Where a stage stands: its phase, the round of waiting, the place within the round. -/
def Stage.clock : Stage → Nat × Nat × Nat
  | call => (0, 0, 0)
  | treeRead => (1, 0, 0)
  | tracked => (2, 0, 0)
  | groupProbe => (3, 0, 0)
  | groupRead => (4, 0, 0)
  | groupReread => (5, 0, 0)
  | groupReprobe => (6, 0, 0)
  | beforeRead => (7, 0, 0)
  | beforeProbe _ => (8, 0, 0)
  | settled => (9, 0, 0)
  | look signal round part => (10 + signal.index, round, part.index)
  | rescan => (13, 0, 0)
  | postRead => (14, 0, 0)
  | copied => (15, 0, 0)
  | finalRead => (16, 0, 0)
  | finalProbe _ => (17, 0, 0)
  | answered => (18, 0, 0)

/-- One stage comes before the other. -/
def Stage.before (a b : Stage) : Prop :=
  a.clock.1 < b.clock.1 ∨ a.clock.1 = b.clock.1 ∧
    (a.clock.2.1 < b.clock.2.1 ∨ a.clock.2.1 = b.clock.2.1 ∧ a.clock.2.2 < b.clock.2.2)

/-- What a call of `terminate` meets: the system and the sampled descendants at each stage,
    whether the driver still holds the leader's set (`kept`), whether the first reading is young
    enough to be used again, how many rounds each deadline leaves, and the error code, if any,
    with which each signal to the group fails. -/
structure World where
  leader : Nat
  kept : Bool
  os : Stage → Os
  sampled : Stage → List Nat
  young : Bool
  rounds : Signal → Nat
  signalError : Signal → Option String
  evolves : ∀ a b, a.before b → (os a).Evolves (os b)
  led : (os .call).Led leader
  grows : ∀ a b, a.before b → sampled a ⊆ sampled b
  known : ∀ a, ∀ pid ∈ sampled a, pid ∈ (os a).used

namespace World

variable (w : World)

def table (stage : Stage) : ProcessTable := (w.os stage).table

/-- What the call finds in `cumulativeDescendantsMap`. -/
def cumSet (stage : Stage) : List Nat := if w.kept then w.sampled stage else []

/-! ## terminate -/

def initialTree : ProcessTree := getProcessTree w.leader (w.table .treeRead) (w.cumSet .call)

/-- `allTrackedPids` before the signals. -/
def firstTracked : List Nat := w.leader :: (w.initialTree.allDescendants ++ w.cumSet .tracked)

def groupAliveBefore : Except Failure Bool :=
  isGroupAlive w.leader (w.table .groupProbe) (w.table .groupReprobe)
    (.own (if w.young then w.table .treeRead else w.table .groupRead) (w.table .groupReread))

def beforeSignals : Except Failure Classified :=
  classifyPids (w.table .beforeRead) (fun pid => w.table (.beforeProbe pid)) w.firstTracked

/-- One look while waiting: the group is gone and so are the pids. -/
def gone (signal : Signal) (round : Nat) : Except Failure Bool := do
  let snapshot := w.table (.look signal round .read)
  let grpAlive ← isGroupAlive w.leader (w.table (.look signal round .probe))
    (w.table (.look signal round .reprobe)) (.existing snapshot)
  let c ← classifyPids snapshot (fun pid => w.table (.look signal round (.pidProbe pid)))
    (w.leader :: w.initialTree.inGroupDescendants)
  pure (!grpAlive && c.runningPids.isEmpty)

/-- Look until both are gone or the deadline has passed, and then once more. -/
def waitFrom (signal : Signal) : Nat → Nat → Except Failure Bool
  | 0, round => w.gone signal round
  | left + 1, round => do
    if ← w.gone signal round then pure true else waitFrom signal left (round + 1)

def waitForGroupAndPids (signal : Signal) : Except Failure Bool :=
  w.waitFrom signal (w.rounds signal) 0

/-- A signal to a group that is not there is no error. -/
def sendSignalToGroup (signal : Signal) : Except Failure Unit :=
  match w.signalError signal with
  | none => pure ()
  | some code => if code = "ESRCH" then pure () else throw (.system code)

/-- The three signals, each only while something is left; the first one refused with EPERM
    leaves it at waiting. -/
def signalGroup : Except Failure Unit := do
  let groupSignalRejected ←
    match w.sendSignalToGroup .sigint with
    | .ok () => pure false
    | .error err => if err = .system "EPERM" then pure true else throw err
  let exited ← w.waitForGroupAndPids .sigint
  if !exited && !groupSignalRejected then
    w.sendSignalToGroup .sigterm
    let exited ← w.waitForGroupAndPids .sigterm
    if !exited then
      w.sendSignalToGroup .sigkill
      let _ ← w.waitForGroupAndPids .sigkill

/-- The tree after the signals; the tree before them is in the cumulative set by then, behind
    what was sampled earlier. -/
def postTree : ProcessTree :=
  getProcessTree w.leader (w.table .postRead)
    (w.cumSet .tracked ++
      ((if w.kept then w.initialTree.allDescendants else []) ++ w.cumSet .rescan))

/-- `allTrackedPids` at the end. -/
def lastTracked : List Nat :=
  w.firstTracked ++ (w.postTree.allDescendants ++ w.cumSet .copied)

/-- The result, and whether the driver still holds the leader's set. -/
structure Answer where
  result : StopProcessResult
  kept : Bool

/-- A field that is left out when it would be empty. -/
def unlessEmpty (pids : List Nat) : Option (List Nat) := if pids.isEmpty then none else some pids

def finalScan : Except Failure Answer := do
  let residuals ← classifyPids (w.table .finalRead) (fun pid => w.table (.finalProbe pid))
    w.lastTracked
  let aliveResiduals := residuals.runningPids
  if !aliveResiduals.isEmpty then
    pure {
      result := {
        stopped := .cannotDetermine
        scope := .unknown
        residualPids := some aliveResiduals
        unreapedPids := unlessEmpty residuals.unreapedPids
        errorDetails := some ("Residual or escaped processes still alive after termination: " ++
          ", ".intercalate (aliveResiduals.map toString)) }
      kept := w.kept }
  else
    pure {
      result := {
        stopped := .confirmedStopped
        scope := .processGroup
        unreapedPids := unlessEmpty residuals.unreapedPids }
      kept := false }

def terminateWithEvidence : Except Failure Answer := do
  let isGroupAlive ← w.groupAliveBefore
  let beforeSignals ← w.beforeSignals
  if !isGroupAlive && beforeSignals.runningPids.isEmpty then
    pure {
      result := {
        stopped := .confirmedStopped
        scope := .directChild
        unreapedPids := unlessEmpty beforeSignals.unreapedPids }
      kept := false }
  else
    w.signalGroup
    w.finalScan

/-- A failed observation is an answer, every other error is thrown. -/
def terminate : Except Failure Answer :=
  match w.terminateWithEvidence with
  | .error (.observation message) => .ok {
      result := { stopped := .cannotDetermine, scope := .unknown, errorDetails := some message }
      kept := w.kept }
  | answer => answer

end World
end Node
end XioFlow.Driver
