/-! What becomes of a task taken back from a worker that went silent: pending again, or parked as a
dead letter once its attempts exceed the ceiling. -/

namespace ClaimQueue

inductive Decision where
  | retry
  | deadLetter
  deriving DecidableEq, Repr

structure RetryPolicy where
  maxRetry : UInt32 := 3
  deriving DecidableEq, Repr

namespace RetryPolicy

/-- `attempts` already counts the reclaim that is being decided. -/
def decide (p : RetryPolicy) (attempts : UInt32) : Decision :=
  if p.maxRetry < attempts then .deadLetter else .retry

def reason (p : RetryPolicy) (attempts : UInt32) : String :=
  "attempts " ++ toString attempts.toNat ++ " exceeded max_retry " ++ toString p.maxRetry.toNat

end RetryPolicy

end ClaimQueue
