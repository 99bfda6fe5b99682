import ClaimQueue.Fleet.Spawner

/-! A reaper takes back the claims of workers gone silent, and nothing else. -/

namespace ClaimQueue

namespace Reaper

structure Config where
  poll : Span := .ofSeconds 30
  reclaim : ReclaimConfig := {}

def queue (c : QueueCall) : Program queueCalls (Except QueueError c.Value) :=
  Program.call (I := queueCalls) c

/-- How many tasks went back to pending. A failure to forget silent workers does not matter. -/
def tick (c : Config) : ExceptT QueueError (Program queueCalls) Nat := do
  let reclaimed : Nat ← ExceptT.mk (queue (.reclaim c.reclaim.idle c.reclaim.batch))
  let _ ← ExceptT.lift (queue (.prune c.reclaim.idle))
  return reclaimed

end Reaper

end ClaimQueue
