import ClaimQueue.Local.Callers
import ClaimQueue.Simulation.World

/-! A worker in the midst of its run, on a queue in memory that others use too. It goes on by one
step at a time; what others do to the queue, and the signal to stop, may come between any two of
them. Once the signal is given, a wait for a task may be given up at any of its steps. -/

namespace ClaimQueue

namespace Simulation

/-- A queue in memory, and whether the signal to stop is given. -/
structure Bench where
  policy : RetryPolicy
  queue : LocalQueue
  stopped : Bool
  /-- The latest first. Deeds of caller 0 are the worker's. -/
  deeds : List LocalQueue.Deed := []

/-- How the surroundings answer. What they would say of the queue or the signal does not count. -/
abbrev Around := (q : Request) → q.Answer

namespace Bench

def act (caller : Nat) (a : Access) (clock : Instant) (b : Bench) : a.Answer × Bench :=
  let d : LocalQueue.Deed := ⟨caller, 0, a, clock, b.queue⟩
  (d.answer b.policy, { b with queue := d.after b.policy, deeds := d :: b.deeds })

def perform (around : Around) (b : Bench) : (s : LocalQueue.Step) → s.Answer × Bench
  | .access a => b.act 0 a (around (.step .clock))
  | s => (around (.step s), b)

/-- A step that heeds the signal may be given up as soon as the signal is given. -/
def reply (around : Around) (b : Bench) : (q : Request) → q.Answer × Bench
  | .step s => b.perform around s
  | .heeding signal s =>
    if b.stopped && (around (.heeding signal s)).isNone then (none, b)
    else (some (b.perform around s).1, (b.perform around s).2)
  | .given _ => (b.stopped, b)
  | q => (around q, b)

end Bench

structure Shift extends Bench where
  rest : Script (Except Worker.Error Worker.Exit)
  /-- What the worker was told, the latest first. -/
  told : List ((q : Request) × q.Answer) := []

namespace Shift

inductive Event where
  | go (around : Around)
  | other (who : Nat) (a : Access) (clock : Instant)
  /-- The signal is given, for good. -/
  | stop

/-- A worker that has not done anything yet. -/
def start (rounds : Nat) (signal : Signal) (w : Worker.Template) (b : Bench) : Shift :=
  { b with deeds := [], rest := workerRun rounds signal w }

def go (around : Around) (y : Shift) : Shift :=
  match y.rest with
  | .ask q next =>
    { toBench := (y.reply around q).2
      rest := next (y.reply around q).1
      told := ⟨q, (y.reply around q).1⟩ :: y.told }
  | _ => y

def step (y : Shift) : Event → Shift
  | .go around => y.go around
  | .other who a clock => { y with toBench := (y.act (who + 1) a clock).2 }
  | .stop => { y with stopped := true }

def run (y : Shift) (events : List Event) : Shift := events.foldl step y

end Shift

end Simulation

end ClaimQueue
