import ClaimQueue.Fleet.Launching
import ClaimQueue.Local.Calls
import ClaimQueue.Worker.Run

/-! A queue in memory under virtual time: the clock for deadlines stands still while anyone can go
on, and then jumps to the next deadline, in whole milliseconds. The date and time is set by hand.
Here is what may be asked of such a world, and its answer: at once, or after a wait. -/

namespace ClaimQueue

namespace Simulation

/-- Stops are told apart by number. -/
abbrev Signal := Nat

inductive Request where
  | step (s : LocalQueue.Step)
  /-- A step whose wait ends without an answer once the signal is given. -/
  | heeding (signal : Signal) (s : LocalQueue.Step)
  | pause (s : Span)
  /-- A handler at work, beside everyone else. -/
  | labour (work : Labour)
  /-- A signal nobody has used. -/
  | newSignal
  | given (signal : Signal)
  | give (signal : Signal)
  /-- Nobody is left to give it. -/
  | abandon (signal : Signal)
  /-- Gives or abandons a signal after a while. -/
  | later (after : Span) (q : Signal) (abandoned : Bool)
  /-- Waits until then; `false` if the signal is given or abandoned first. -/
  | until (signal : Signal) (due : Span)
  | setClock (t : Instant)
  | launcher (call : LauncherCall)
  /-- Tells the launched workers to stop, and starts no more. -/
  | halt
  /-- `halt`, and waits for them. -/
  | join

abbrev Request.Answer : Request → Type
  | .step s => s.Answer
  | .heeding _ s => Option s.Answer
  | .pause _ | .give _ | .abandon _ | .later _ _ _ | .setClock _ | .halt | .join => Unit
  | .labour _ => Outcome
  | .newSignal => Signal
  | .given _ | .until _ _ => Bool
  | .launcher c => c.Answer

abbrev requests : Interface := ⟨Request, Request.Answer⟩

abbrev Script (α : Type) := Program requests α

def ask (q : Request) : Script q.Answer := Program.call (I := requests) q

/-- What a waiting one holds: its number, and when its wait ends at the latest. -/
structure Hold where
  number : Nat
  due : Option Nat

/-- A script, and the wait that it is in. -/
structure Fiber (α : Type) where
  script : Script α
  hold : Option Hold := none

structure Launcher where
  template : Worker.Template
  signal : Signal
  launched : Nat := 0
  /-- Those that were not waited for. -/
  members : List Nat := []

structure World where
  queue : LocalQueue := {}
  policy : RetryPolicy := {}
  bell : Bell := {}
  announced : Nat := 0
  clock : Instant
  /-- Milliseconds. -/
  time : Nat := 0
  given : List Signal := []
  abandoned : List Signal := []
  /-- Below it, numbers are taken. -/
  fresh : Nat := 0
  /-- Those in the background, by number. -/
  crew : List (Nat × Fiber Unit) := []
  /-- The numbers of those in the background that have not ended. -/
  alive : List Nat := []
  launcher : Option Launcher := none

namespace World

def elapsed (w : World) : Span := .ofMillis w.time

/-- The first whole millisecond at or after a time. -/
def mark (due : Span) : Nat := (due.nanos + 999999) / 1000000

def isDue (due : Span) (w : World) : Bool := decide (mark due ≤ w.time)

def number (w : World) : Nat × World := (w.fresh, { w with fresh := w.fresh + 1 })

def start (script : Script Unit) (w : World) : Nat × World :=
  (w.fresh, { w with
    fresh := w.fresh + 1
    crew := w.crew ++ [(w.fresh, ⟨script, none⟩)]
    alive := w.fresh :: w.alive })

def counts (w : World) : QueueCounts := w.queue.counts w.clock

end World

/-- A step that stops waiting once the signal is given: no answer then. -/
def heeding {α : Type} (signal : Signal) : LocalQueue.Steps α → Script (Option α)
  | .done a => .done (some a)
  | .ask s next => .ask (I := requests) (.heeding signal s) fun (answer : Option s.Answer) =>
    answer.elim (.done none) fun r => heeding signal (next r)
  | .spent => .spent

def plain {α : Type} (p : LocalQueue.Steps α) : Script α :=
  p.lower (J := requests) fun s => ask (.step s)

def queueCall (rounds : Nat) (c : QueueCall) : Script (Except QueueError c.Value) :=
  plain (LocalQueue.answer rounds c)

/-- A worker on the queue in memory, which stops at the signal. -/
def workerAsk (rounds : Nat) (signal : Signal) : (q : Worker.Ask) → Script q.Answer
  | .stopSeen => ask (.given signal)
  | .elapsed => ask (.step .elapsed)
  | .clock => ask (.step .clock)
  | .pop wait => do
    if ← ask (.given signal) then return none
    else heeding signal (LocalQueue.answer rounds (.pop true wait))
  | .release id => queueCall rounds (.release id)
  | .ack id => queueCall rounds (.ack id)
  | .publish r => queueCall rounds (.publish r)
  | .labour work => ask (.labour work)
  | .pause s => ask (.pause s)

def workerRun (rounds : Nat) (signal : Signal) (t : Worker.Template) :
    Script (Except Worker.Error Worker.Exit) :=
  (Worker.run rounds t).lower (J := requests) (workerAsk rounds signal)

end Simulation

end ClaimQueue
