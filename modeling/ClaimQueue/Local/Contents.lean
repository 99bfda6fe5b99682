import ClaimQueue.Queue.DeadLetter
import ClaimQueue.Task.Result
import ClaimQueue.Task.Retry

/-! What a queue in memory holds: pending tasks in order, claims and results by task id, and dead
letters, the newest last. A task is in one place at a time. -/

namespace ClaimQueue

structure Claim where
  task : Task
  claimedAt : Instant
  deriving DecidableEq

structure LocalQueue where
  pending : List Task := []
  inFlight : Index Claim := []
  results : Index TaskResult := []
  dead : List DeadLetter := []
  deriving DecidableEq

namespace LocalQueue

def knows (id : String) (q : LocalQueue) : Bool :=
  q.inFlight.holds id || q.pending.any (·.id == id) || q.dead.any (·.task.id == id)

/-- Nothing for a task whose id is in one of the three places. -/
def enqueue? (t : Task) (q : LocalQueue) : Option LocalQueue :=
  if q.knows t.id then none else some { q with pending := q.pending ++ [t] }

/-- Claims the oldest pending task. -/
def take? (now : Instant) (q : LocalQueue) : Option (Task × LocalQueue) :=
  match q.pending with
  | [] => none
  | t :: rest => some (t, { q with pending := rest, inFlight := q.inFlight.put t.id ⟨t, now⟩ })

def ack (id : String) (q : LocalQueue) : LocalQueue := { q with inFlight := q.inFlight.erase id }

/-- The claimed task joins the end of the line. -/
def release? (id : String) (q : LocalQueue) : Option LocalQueue :=
  (q.inFlight.find? id).map fun c =>
    { q with inFlight := q.inFlight.erase id, pending := q.pending ++ [c.task] }

/-- Older than `idle`; a claim of exactly that age is not. -/
def isStale (now : Instant) (idle : Span) (c : Claim) : Bool :=
  decide (Instant.ageLimit idle < now.since c.claimedAt)

/-- Claims by age, claims of one time by id. -/
def claimedFirst (a b : String × Claim) : Bool :=
  match a.2.claimedAt.order b.2.claimedAt with
  | .lt => true
  | .eq => decide (a.1 ≤ b.1)
  | .gt => false

def stale (now : Instant) (idle : Span) (batch : Nat) (q : LocalQueue) : List (String × Claim) :=
  ((q.inFlight.filter fun e => isStale now idle e.2).mergeSort claimedFirst).take batch

def letter (policy : RetryPolicy) (now : Instant) (t : Task) : DeadLetter :=
  ⟨t, policy.reason t.attempts, now⟩

/-- Takes stale claims back. Each costs its task an attempt, and the policy sends the task to
pending or to the dead letters. The number is that of tasks back in pending. -/
def reclaim (policy : RetryPolicy) (now : Instant) (idle : Span) (batch : Nat) (q : LocalQueue) :
    Nat × LocalQueue :=
  let taken := q.stale now idle batch
  let bumped := taken.map fun e => e.2.task.bumped
  let again := bumped.filter fun t => policy.decide t.attempts == .retry
  let spent := bumped.filter fun t => policy.decide t.attempts == .deadLetter
  (again.length, { q with
    pending := q.pending ++ again
    inFlight := q.inFlight.filter fun e => !taken.any (·.1 == e.1)
    dead := q.dead ++ spent.map (letter policy now) })

def oldest : List Instant → Option Instant
  | [] => none
  | t :: rest => match oldest rest with
    | none => some t
    | some u => some (if t.atOrBefore u then t else u)

/-- Whole seconds since `t`, none if it lies ahead. -/
def wait (now t : Instant) : Nat := ((now.since t).tdiv 1000000000).toNat

def counts (now : Instant) (q : LocalQueue) : QueueCounts where
  pending := q.pending.length
  inFlight := q.inFlight.length
  dead := q.dead.length
  oldestPending := (oldest (q.pending.map (·.createdAt))).map (wait now)

def deadLetters (limit : Nat) (q : LocalQueue) : List DeadLetter := q.dead.reverse.take limit

def isLetterFor (id : String) (d : DeadLetter) : Bool := d.task.id == id

/-- Its attempts stay as they are, so the next reclaim buries it again. -/
def replay? (id : String) (q : LocalQueue) : Option LocalQueue :=
  (q.dead.find? (isLetterFor id)).map fun d =>
    { q with dead := q.dead.eraseP (isLetterFor id), pending := q.pending ++ [d.task] }

def discard? (id : String) (q : LocalQueue) : Option LocalQueue :=
  if q.dead.any (isLetterFor id) then
    some { q with dead := q.dead.filter fun d => !isLetterFor id d }
  else none

/-- The last result for an id counts. -/
def save (r : TaskResult) (q : LocalQueue) : LocalQueue :=
  { q with results := q.results.put r.taskId r }

def result? (id : String) (q : LocalQueue) : Option TaskResult := q.results.find? id

end LocalQueue

/-- What is done to a queue in one piece. -/
inductive Access where
  | enqueue (task : Task)
  | take
  | ack (id : String)
  | release (id : String)
  | reclaim (now : Instant) (idle : Span) (batch : Nat)
  | counts (now : Instant)
  | deadLetters (limit : Nat)
  | replay (id : String)
  | discard (id : String)
  | save (result : TaskResult)
  | result (id : String)
  | resultIds

namespace Access

abbrev Answer : Access → Type
  | .enqueue _ | .release _ | .replay _ | .discard _ => Bool
  | .take => Option Task
  | .ack _ | .save _ => Unit
  | .reclaim _ _ _ => Nat
  | .counts _ => QueueCounts
  | .deadLetters _ => List DeadLetter
  | .result _ => Option TaskResult
  | .resultIds => List String

/-- Whether it applies, and the queue after it. -/
def accepted (q : LocalQueue) : Option LocalQueue → Bool × LocalQueue
  | some after => (true, after)
  | none => (false, q)

def perform (policy : RetryPolicy) (clock : Instant) (q : LocalQueue) :
    (a : Access) → a.Answer × LocalQueue
  | .enqueue t => accepted q (q.enqueue? t)
  | .take => match q.take? clock with
    | some (t, after) => (some t, after)
    | none => (none, q)
  | .ack id => ((), q.ack id)
  | .release id => accepted q (q.release? id)
  | .reclaim now idle batch => q.reclaim policy now idle batch
  | .counts now => (q.counts now, q)
  | .deadLetters limit => (q.deadLetters limit, q)
  | .replay id => accepted q (q.replay? id)
  | .discard id => accepted q (q.discard? id)
  | .save r => ((), q.save r)
  | .result id => (q.result? id, q)
  | .resultIds => (q.results.keys, q)

end Access

end ClaimQueue
