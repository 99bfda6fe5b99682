import ClaimQueue.Program
import ClaimQueue.Time.Span

/-! Rounds at regular times until told to stop. The first is due at once, each other one period
after the one before was due, or was begun if it began late. The stop is looked at before every
round. -/

namespace ClaimQueue

namespace Patrol

inductive Ask where
  | elapsed
  | stopSeen
  /-- Waits until then; `false` if told to stop first. -/
  | until (due : Span)
  /-- Makes a round. -/
  | round

abbrev Ask.Answer : Ask → Type
  | .elapsed => Span
  | .stopSeen | .until _ => Bool
  | .round => Unit

abbrev asks : Interface := ⟨Ask, Ask.Answer⟩

def ask (q : Ask) : Program asks q.Answer := Program.call (I := asks) q

/-- Said of a patrol without a pause between rounds, which is refused. -/
def noPeriod : String := "`period` must be non-zero."

/-- A round that begins later than this after it was due is late. -/
def grace : Span := .ofMillis 5

def nextDue (period due now : Span) : Span :=
  if grace.nanos < now.nanos - due.nanos then ⟨now.nanos + period.nanos⟩
  else ⟨due.nanos + period.nanos⟩

def turn (period due : Span) : Program asks (Span ⊕ Unit) := do
  if ← ask .stopSeen then return .inr ()
  else if ← ask (.until due) then
    let now ← ask .elapsed
    ask .round
    return .inl (nextDue period due now)
  else return .inr ()

def run (rounds : Nat) (period : Span) : Program asks Unit := do
  Program.loop (turn period) rounds (← ask .elapsed)

end Patrol

end ClaimQueue
