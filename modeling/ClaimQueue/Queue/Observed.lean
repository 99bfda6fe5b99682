import ClaimQueue.Queue.Call

/-! A queue under observation: every call that workers, spawners and reapers make is noted, and
calls can be made to fail. A call that fails does not reach the queue. -/

namespace ClaimQueue

namespace Observed

inductive CallKind where
  | pop
  | ack
  | release
  | publish
  | reclaim
  | prune
  | counts
  deriving DecidableEq, Repr

inductive Note where
  | pop (block : Bool) (timeout : Span)
  /-- The pop before came back with a task or without. -/
  | got (id : Option String)
  | ack (id : String)
  | release (id : String)
  | publish (result : TaskResult)
  | reclaim (idle : Span) (batch : Nat)
  | prune (idle : Span)
  | counts
  /-- The call before was made to fail. -/
  | failed

def CallKind.ofCall? : QueueCall → Option (CallKind × Note)
  | .pop block timeout => some (.pop, .pop block timeout)
  | .ack id => some (.ack, .ack id)
  | .release id => some (.release, .release id)
  | .publish r => some (.publish, .publish r)
  | .reclaim idle batch => some (.reclaim, .reclaim idle batch)
  | .prune idle => some (.prune, .prune idle)
  | .counts => some (.counts, .counts)
  | _ => none

/-- Calls of a kind fail from the one on that follows `after` others. -/
structure Outage where
  kind : CallKind
  after : Nat
  error : QueueError

structure Log where
  outages : List Outage := []
  /-- Workers forgotten elsewhere, in every call that prunes. -/
  pruned : Nat := 0
  /-- The latest first. -/
  notes : List Note := []
  /-- The calls let through. -/
  passed : List CallKind := []

namespace Log

def note (n : Note) (log : Log) : Log := { log with notes := n :: log.notes }

def outage? (kind : CallKind) (log : Log) : Option Outage :=
  log.outages.find? fun o => o.kind == kind && decide (o.after ≤ log.passed.count kind)

/-- Notes a call and decides whether it fails. -/
def letIn (kind : CallKind) (n : Note) (log : Log) : Option QueueError × Log :=
  match log.outage? kind with
  | some o => (some o.error, (log.note n).note .failed)
  | none => (none, { log.note n with passed := kind :: log.passed })

def noteEnd (log : Log) : (c : QueueCall) → Except QueueError c.Value → Log
  | .pop _ _, .ok t => log.note (.got (t.map (·.id)))
  | _, _ => log

def adjust (log : Log) : (c : QueueCall) → Except QueueError c.Value → Except QueueError c.Value
  | .prune _, .ok n => .ok (n + log.pruned)
  | _, r => r

end Log

/-- A call on the observed queue. -/
def call (c : QueueCall) (log : Log) : Program queueCalls (Except QueueError c.Value × Log) :=
  match CallKind.ofCall? c with
  | none => do return (← Program.call (I := queueCalls) c, log)
  | some (kind, n) =>
    match log.letIn kind n with
    | (some e, log) => pure (.error e, log)
    | (none, log) => do
      let r ← Program.call (I := queueCalls) c
      return (log.adjust c r, log.noteEnd c r)

end Observed

end ClaimQueue
