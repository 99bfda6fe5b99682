import ClaimQueue.Fleet.Launching
import ClaimQueue.Queue.Call

/-! A spawner keeps enough workers alive: in every round it starts what the queue's depth and the
spare pool ask for, but never stops one. It may also take back the claims of workers gone silent. It
keeps nothing in mind between rounds. -/

namespace ClaimQueue

/-- When a claim counts as left behind, and how many are taken back in one go. -/
structure ReclaimConfig where
  idle : Span := .ofSeconds 300
  batch : Nat := 100

namespace Spawner

structure Config where
  /-- For logs. -/
  label : String := "default"
  poll : Span := .ofSeconds 2
  desiredIdle : Nat := 0
  maxParallel : Nat := 4
  /-- None, if claims are taken back elsewhere. -/
  reclaim : Option ReclaimConfig := some {}

/-- The largest number of workers that can be counted. -/
def ceiling : Nat := 2 ^ 64 - 1

/-- Every pending task and every wanted spare needs an idle worker of its own. -/
def planLaunches (pending idle desiredIdle maxParallel : Nat) : Nat :=
  min (min (pending + desiredIdle) ceiling - idle) maxParallel

structure Report where
  pending : Nat
  inFlight : Nat
  live : Nat
  /-- Live workers without a claim, as far as can be told. -/
  idle : Nat
  launched : Nat := 0
  launchFailures : Nat := 0
  reclaimed : Nat := 0
  pruned : Nat := 0
  deriving DecidableEq, Repr

inductive Ask where
  | queue (call : QueueCall)
  | launcher (call : LauncherCall)

abbrev Ask.Answer : Ask → Type
  | .queue c => Except QueueError c.Value
  | .launcher c => c.Answer

abbrev asks : Interface := ⟨Ask, Ask.Answer⟩

abbrev Job (α : Type) := ExceptT QueueError (Program asks) α

def queue (c : QueueCall) : Program asks (Except QueueError c.Value) :=
  Program.call (I := asks) (.queue c)

def launcher (c : LauncherCall) : Program asks c.Answer := Program.call (I := asks) (.launcher c)

/-- Starts up to `wanted` workers; the first failure ends it. -/
def launch : (wanted : Nat) → Report → Program asks Report
  | 0, report => pure report
  | wanted + 1, report => do
    match ← launcher .launch with
    | .ok _ => launch wanted { report with launched := report.launched + 1 }
    | .error _ => return { report with launchFailures := report.launchFailures + 1 }

/-- A failure to forget silent workers is no failure of the round. -/
def tidy (c : ReclaimConfig) (report : Report) : Job Report := do
  let reclaimed : Nat ← ExceptT.mk (queue (.reclaim c.idle c.batch))
  match ← ExceptT.lift (queue (.prune c.idle)) with
  | .ok pruned => return { report with reclaimed, pruned }
  | .error _ => return { report with reclaimed }

def tick (c : Config) : Job Report := do
  let counts : QueueCounts ← ExceptT.mk (queue .counts)
  let live ← launcher .live
  let idle := live - counts.inFlight
  let wanted := planLaunches counts.pending idle c.desiredIdle c.maxParallel
  let report ← launch wanted ⟨counts.pending, counts.inFlight, live, idle, 0, 0, 0, 0⟩
  match c.reclaim with
  | none => return report
  | some r => tidy r report

end Spawner

end ClaimQueue
