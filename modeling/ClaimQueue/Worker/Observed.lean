import ClaimQueue.Queue.Observed
import ClaimQueue.Worker.Run

/-! A worker's run on a queue under observation. -/

namespace ClaimQueue

namespace Worker

open Observed in
/-- The call goes through as `q`, or fails as planned. -/
def letIn (kind : CallKind) (n : Note) (log : Log) {α : Type}
    (q : Program asks (Except QueueError α)) : Program asks (Except QueueError α × Log) :=
  match log.letIn kind n with
  | (some e, log) => pure (.error e, log)
  | (none, log) => do return (← q, log)

open Observed in
def observed : (q : Ask) → Log → Program asks (q.Answer × Log)
  | .pop wait, log =>
    match log.letIn .pop (.pop true wait) with
    | (some e, log) => pure (some (.error e), log)
    | (none, log) => do
      match ← ask (.pop wait) with
      | some (.ok t) => return (some (.ok t), log.note (.got (t.map (·.id))))
      | r => return (r, log)
  | .ack id, log => letIn .ack (.ack id) log (ask (.ack id))
  | .release id, log => letIn .release (.release id) log (ask (.release id))
  | .publish r, log => letIn .publish (.publish r) log (ask (.publish r))
  | q, log => do return (← ask q, log)

end Worker

end ClaimQueue
