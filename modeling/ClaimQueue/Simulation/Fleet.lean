import ClaimQueue.Fleet.Patrol
import ClaimQueue.Fleet.Reaper
import ClaimQueue.Simulation.Run
import ClaimQueue.Worker.Observed

/-! Workers, spawners and reapers on the queue in memory, under observation. A spawner may work with
a pool that only counts what it starts. -/

namespace ClaimQueue

namespace Simulation

/-- How a run is told to stop. -/
inductive Stop where
  | never
  /-- Told before it starts. -/
  | preset
  /-- Told before it starts, by someone who has left. -/
  | presetAbandoned
  /-- Nobody is left to tell. -/
  | abandoned
  | after (s : Span)
  | abandonedAfter (s : Span)

def Stop.signal (stop : Stop) : Script Signal := do
  let signal ← ask .newSignal
  match stop with
  | .never => return signal
  | .preset =>
    ask (.give signal)
    return signal
  | .presetAbandoned =>
    ask (.give signal)
    ask (.abandon signal)
    return signal
  | .abandoned =>
    ask (.abandon signal)
    return signal
  | .after s =>
    ask (.later s signal false)
    return signal
  | .abandonedAfter s =>
    ask (.later s signal true)
    return signal

def elapsed : Script Span := ask (.step .elapsed)

/-- With how long it took. -/
def timed {α : Type} (s : Script α) : Script (α × Span) := do
  let start ← elapsed
  let a ← s
  return (a, (← elapsed).less start)

/-- A worker's whole run, and what was noted of it. -/
def watch (rounds : Nat) (t : Worker.Template) (stop : Stop) (log : Observed.Log) :
    Script ((Except Worker.Error Worker.Exit × Observed.Log) × Span) := do
  let signal ← stop.signal
  let watched := (Worker.run rounds t).through (J := Worker.asks) Worker.observed log
  timed (watched.lower (J := requests) (workerAsk rounds signal))

/-- Counts workers and starts none. Full at `limit`. -/
structure Pool where
  live : Nat := 0
  limit : Option Nat := none
  refusal : LaunchError := .quota "no more slots"
  log : Observed.Log := {}

def Pool.launch (p : Pool) : Except LaunchError String × Pool :=
  if p.limit.any (· ≤ p.live) then (.error p.refusal, p)
  else (.ok ("worker-" ++ toString p.live), { p with live := p.live + 1 })

def observedCall (rounds : Nat) (c : QueueCall) (log : Observed.Log) :
    Script (Except QueueError c.Value × Observed.Log) :=
  (Observed.call c log).lower (J := requests) (queueCall rounds)

def poolAsk (rounds : Nat) : (q : Spawner.Ask) → Pool → Script (q.Answer × Pool)
  | .queue c, pool => do
    let (r, log) ← observedCall rounds c pool.log
    return (r, { pool with log })
  | .launcher .live, pool => pure (pool.live, pool)
  | .launcher .launch, pool => pure pool.launch

/-- Starts its workers with the launcher of the world. -/
def launcherAsk (rounds : Nat) : (q : Spawner.Ask) → Script q.Answer
  | .queue c => queueCall rounds c
  | .launcher c => ask (.launcher c)

abbrev Report := Except QueueError Spawner.Report

def spawn (rounds : Nat) (c : Spawner.Config) (pool : Pool) : Script (Report × Pool) :=
  (Spawner.tick c).run.through (J := requests) (poolAsk rounds) pool

def spawnTimes (rounds : Nat) (c : Spawner.Config) : Nat → Pool → Script (List Report × Pool)
  | 0, pool => pure ([], pool)
  | n + 1, pool => do
    let (r, pool) ← spawn rounds c pool
    let (rs, pool) ← spawnTimes rounds c n pool
    return (r :: rs, pool)

def launchTimes (rounds : Nat) (c : Spawner.Config) : Nat → Script (List Report)
  | 0 => pure []
  | n + 1 => do
    let r ← (Spawner.tick c).run.lower (J := requests) (launcherAsk rounds)
    return r :: (← launchTimes rounds c n)

def reap (rounds : Nat) (c : Reaper.Config) (log : Observed.Log) :
    Script (Except QueueError Nat × Observed.Log) :=
  (Reaper.tick c).run.through (J := requests) (observedCall rounds) log

def patrolAsk {σ : Type} (signal : Signal) (round : σ → Script σ) :
    (q : Patrol.Ask) → σ → Script (q.Answer × σ)
  | .elapsed, s => do return (← elapsed, s)
  | .stopSeen, s => do return (← ask (.given signal), s)
  | .until due, s => do return (← ask (.until signal due), s)
  | .round, s => do return ((), ← round s)

def patrol {σ : Type} (rounds : Nat) (period : Span) (stop : Stop) (round : σ → Script σ) (s : σ) :
    Script (σ × Span) := do
  let signal ← stop.signal
  let ran := (Patrol.run rounds period).through (J := requests) (patrolAsk signal round) s
  let (((), s), took) ← timed ran
  return (s, took)

/-- A spawner's run; a round that fails is no reason to stop. -/
def spawnerRun (rounds : Nat) (c : Spawner.Config) (stop : Stop) (pool : Pool) :
    Script (Pool × Span) :=
  patrol rounds c.poll stop (fun pool => do return (← spawn rounds c pool).2) pool

def reaperRun (rounds : Nat) (c : Reaper.Config) (stop : Stop) (log : Observed.Log) :
    Script (Observed.Log × Span) :=
  patrol rounds c.poll stop (fun log => do return (← reap rounds c log).2) log

/-- Scripts one after the other. -/
def inOrder {α : Type} : List (Script α) → Script (List α)
  | [] => pure []
  | s :: rest => do
    let a ← s
    return a :: (← inOrder rest)

/-- Scripts one after the other, begun after a pause. -/
def later {α : Type} (pause : Span) (scripts : List (Script α)) : Script (List α) := do
  ask (.pause pause)
  inOrder scripts

end Simulation

end ClaimQueue
