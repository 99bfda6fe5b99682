import ClaimQueue.Broker.Scripted
import ClaimQueue.CommandLine.Errand

/-! A machine in memory on which commands are tried out: a scripted broker, directories, files, and
an order to stop that comes once so many commands have reached the broker. -/

namespace ClaimQueue

namespace CommandLine

structure Rehearsal where
  broker : Broker.Scripted
  directories : Index Files.Memory := []
  files : Index (List UInt8) := []
  /-- The latest line first. -/
  output : List String := []
  remarks : List String := []
  processName : String
  random : Nat := 0
  stopAfter : Option Nat := none
  /-- Words of the processes that were started, the latest first. -/
  started : List (List String) := []

namespace Rehearsal

def stopped (m : Rehearsal) : Bool :=
  match m.stopAfter with
  | some n => decide (n ≤ m.broker.sent.length)
  | none => false

def sends : Broker.Ask → Bool
  | .send _ | .sendWaiting _ | .transaction _ | .together _ => true
  | _ => false

def onBroker (q : Broker.Ask) (m : Rehearsal) : q.Answer × Rehearsal :=
  let r := m.broker.answer q
  (r.1, { m with broker := r.2 })

def readText (path : String) (m : Rehearsal) : Except String String :=
  match Index.find? path m.files with
  | none => .error "no such file"
  | some bytes => match Text.Utf8.text? bytes with
    | some text => .ok text
    | none => .error "no text"

def inDirectory (directory : String) (q : Files.Ask) (m : Rehearsal) : q.Answer × Rehearsal :=
  let place : Files.Place :=
    if Index.holds directory m.files then .occupied else .vacant
  let r := ((Index.find? directory m.directories).getD { place }).answer q
  (r.1, { m with directories := Index.put directory r.2 m.directories })

/-- Waiting takes all the time that it may, unless told to stop. -/
def answer (q : Ask) (m : Rehearsal) : q.Answer × Rehearsal :=
  match q with
  | .broker q => m.onBroker q
  | .brokerUnlessStopped q =>
    if m.stopped then (none, m)
    else
      let silent := sends q && m.broker.isSilent
      let r := m.onBroker q
      (if silent then none else some r.1, r.2)
  | .files directory q => m.inDirectory directory q
  | .readText path => (m.readText path, m)
  | .print line => ((), { m with output := line :: m.output })
  | .remark line => ((), { m with remarks := line :: m.remarks })
  | .processName => (m.processName, m)
  | .random => (m.random, { m with random := m.random + 1 })
  | .stopSeen => (m.stopped, m)
  | .until due =>
    if m.stopped then (false, m)
    else (true, { m with
      broker := { m.broker with time := ⟨max m.broker.time.nanos due.nanos⟩ } })
  | .spawn words => (.ok (), { m with started := words :: m.started })
  | .running => (m.started.length, m)

/-- The result of an invocation, if it comes to an end, and the machine after it. -/
def run (rounds : Nat) (endings : Child.Runner → SandboxRequest → Child.Ending) (i : Invocation)
    (m : Rehearsal) : Option (Except Error Nat) × Rehearsal :=
  (i.run rounds endings).run.run answer m

end Rehearsal

end CommandLine

end ClaimQueue
