import ClaimQueue.Local.Contents
import ClaimQueue.Local.Wakeup
import ClaimQueue.Queue.Call

/-! The calls of a task queue on a queue in memory, step by step. Between two steps of one caller
any number of steps of others may fall; a step on the contents is one piece. Those who wait for a
task look first and register later; those who wait for a result first note how many results have
been announced, so no announcement after their look is missed. -/

namespace ClaimQueue

namespace LocalQueue

inductive Step where
  | access (a : Access)
  /-- The date and time. -/
  | clock
  /-- The time that has passed, for deadlines. -/
  | elapsed
  /-- Rings for one who waits for a task. -/
  | ring
  | announce
  | announced
  /-- Waits for a ring, at most until `deadline`: whether one came. -/
  | attend (deadline : Span)
  /-- Waits for an announcement beyond the first `seen`. -/
  | attendResult (seen : Nat) (deadline : Span)

abbrev Step.Answer : Step → Type
  | .access a => a.Answer
  | .clock => Instant
  | .elapsed => Span
  | .ring | .announce => Unit
  | .announced => Nat
  | .attend _ | .attendResult _ _ => Bool

abbrev steps : Interface := ⟨Step, Step.Answer⟩

abbrev Steps (α : Type) := Program steps α

def access (a : Access) : Steps a.Answer := Program.call (I := steps) (.access a)

def clock : Steps Instant := Program.call (I := steps) .clock

def elapsed : Steps Span := Program.call (I := steps) .elapsed

def ring : Steps Unit := Program.call (I := steps) .ring

def ringIf (b : Bool) : Steps Bool := do
  if b then ring
  return b

def ringTimes : Nat → Steps Unit
  | 0 => pure ()
  | n + 1 => do
    ring
    ringTimes n

namespace Calls

def enqueue (t : Task) : Steps (Except QueueError Unit) := do
  if ← ringIf (← access (.enqueue t)) then return .ok ()
  else return .error (.duplicateTask t.id)

/-- One look, and one wait if it was in vain. -/
def popRound (block : Bool) (deadline : Span) : Steps (Unit ⊕ Option Task) := do
  match ← access .take with
  | some t => return .inr (some t)
  | none =>
    if block then
      if ← Program.call (I := steps) (.attend deadline) then return .inl ()
      else return .inr none
    else return .inr none

def pop (rounds : Nat) (block : Bool) (timeout : Span) : Steps (Option Task) := do
  let start ← elapsed
  Program.loop (fun _ => popRound block ⟨start.nanos + timeout.nanos⟩) rounds ()

def save (r : TaskResult) : Steps Unit := do
  access (.save r)
  Program.call (I := steps) .announce

def awaitRound (id : String) (deadline : Span) : Steps (Unit ⊕ Option TaskResult) := do
  let seen ← Program.call (I := steps) .announced
  match ← access (.result id) with
  | some r => return .inr (some r)
  | none =>
    if ← Program.call (I := steps) (.attendResult seen deadline) then return .inl ()
    else return .inr none

def awaitResult (rounds : Nat) (id : String) (timeout : Span) : Steps (Option TaskResult) := do
  let start ← elapsed
  Program.loop (fun _ => awaitRound id ⟨start.nanos + timeout.nanos⟩) rounds ()

def reclaim (idle : Span) (batch : Nat) : Steps Nat := do
  let now ← clock
  let n ← access (.reclaim now idle batch)
  ringTimes n
  return n

def counts : Steps QueueCounts := do
  let now ← clock
  access (.counts now)

def replay (id : String) : Steps Bool := do
  ringIf (← access (.replay id))

/-- The next result of those listed that is still there and of the kind, and the ids after it. -/
def nextResult (kind : Option TaskKind) : List String → Steps (Option (TaskResult × List String))
  | [] => pure none
  | id :: rest => do
    match ← access (.result id) with
    | some r => if r.matchesKind kind then return some (r, rest) else nextResult kind rest
    | none => nextResult kind rest

def results (kind : Option TaskKind) (ids : List String) : Steps (List TaskResult) :=
  Program.loop (fun (left, found) => do
    match ← nextResult kind left with
    | some (r, left) => return .inl (left, r :: found)
    | none => return .inr found.reverse) (ids.length + 1) (ids, [])

end Calls

/-- A call as steps. `rounds` bounds how often a waiting call looks again. -/
def answer (rounds : Nat) : (c : QueueCall) → Steps (Except QueueError c.Value)
  | .enqueue t => Calls.enqueue t
  | .pop block timeout => do return .ok (← Calls.pop rounds block timeout)
  | .ack id => do return .ok (← access (.ack id))
  | .release id => do
    let _ ← ringIf (← access (.release id))
    return .ok ()
  | .publish r => do return .ok (← Calls.save r)
  | .awaitResult id timeout => do return .ok (← Calls.awaitResult rounds id timeout)
  | .reclaim idle batch => do return .ok (← Calls.reclaim idle batch)
  | .prune _ => pure (.ok 0)
  | .counts => do return .ok (← Calls.counts)
  | .deadLetters limit => do return .ok (← access (.deadLetters limit))
  | .replay id => do return .ok (← Calls.replay id)
  | .discard id => do return .ok (← access (.discard id))

end LocalQueue

end ClaimQueue
