import ClaimQueue.Program
import ClaimQueue.Queue.DeadLetter
import ClaimQueue.Queue.Error

/-! What is asked of a task queue, and of a result store. -/

namespace ClaimQueue

inductive QueueCall where
  | enqueue (task : Task)
  /-- Claims the oldest pending task. Unless it blocks it does not wait for one. -/
  | pop (block : Bool) (timeout : Span)
  /-- Ends a claim for good. -/
  | ack (id : String)
  /-- Hands a claimed task back, without an attempt counted. -/
  | release (id : String)
  | publish (result : TaskResult)
  | awaitResult (id : String) (timeout : Span)
  /-- Takes back claims older than `idle`, at most `batch` of them, oldest first. -/
  | reclaim (idle : Span) (batch : Nat)
  /-- Forgets workers that hold nothing and were silent for `idle`. -/
  | prune (idle : Span)
  | counts
  /-- The newest first. -/
  | deadLetters (limit : Nat)
  /-- Back to pending, with its attempts kept. -/
  | replay (id : String)
  | discard (id : String)

namespace QueueCall

abbrev Value : QueueCall → Type
  | .enqueue _ | .ack _ | .release _ | .publish _ => Unit
  | .pop _ _ => Option Task
  | .awaitResult _ _ => Option TaskResult
  | .reclaim _ _ | .prune _ => Nat
  | .counts => QueueCounts
  | .deadLetters _ => List DeadLetter
  | .replay _ | .discard _ => Bool

end QueueCall

abbrev queueCalls : Interface := ⟨QueueCall, fun c => Except QueueError c.Value⟩

end ClaimQueue
