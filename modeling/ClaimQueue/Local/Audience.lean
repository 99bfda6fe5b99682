import ClaimQueue.Local.Callers

/-! Several callers of one queue in memory, and the announcements of results between those who save
them and those who wait for one. Whoever waits notes how many there have been, looks, and then sleeps
until there is another or his time is up; an announcement wakes all who sleep. Every step is on
record, with the time it was taken at. -/

namespace ClaimQueue

namespace LocalQueue

/-- Tells the others that there are results. -/
def Step.announces : Step → Bool
  | .announce => true
  | _ => false

structure Moment where
  caller : Nat
  /-- How many undertakings the caller had finished. -/
  turn : Nat
  undertaking : Undertaking
  step : Step
  time : Span

structure Audience extends System where
  announced : Nat := 0
  time : Span := ⟨0⟩
  /-- The latest first. -/
  record : List Moment := []

namespace Audience

inductive Event where
  | begin (caller : Nat) (u : Undertaking)
  | go (caller : Nat) (around : Surroundings)
  | pass (span : Span)

def fresh (policy : RetryPolicy) (callers : Nat) : Audience :=
  { toSystem := .fresh policy callers }

/-- The surroundings, with the time and the announcements that there are. -/
def telling (around : Surroundings) (y : Audience) : Surroundings
  | .elapsed => y.time
  | .announced => y.announced
  | .attendResult seen _ => y.announced != seen
  | s => around s

/-- Nothing was announced since, and time is left. -/
def holds (y : Audience) : Step → Bool
  | .attendResult seen deadline => y.announced == seen && decide (y.time.nanos < deadline.nanos)
  | _ => false

/-- A caller that sleeps stays where it is. -/
def go (i : Nat) (around : Surroundings) (y : Audience) : Audience :=
  match y.callers[i]? with
  | some ⟨some ⟨u, .ask s _⟩, history⟩ =>
    if y.holds s then y
    else { y with
      toSystem := y.toSystem.go i (y.telling around)
      announced := if s.announces then y.announced + 1 else y.announced
      record := ⟨i, history.length, u, s, y.time⟩ :: y.record }
  | _ => y

def step (rounds : Nat) (y : Audience) : Event → Audience
  | .begin i u => { y with toSystem := y.toSystem.step rounds (.begin i u) }
  | .go i around => y.go i around
  | .pass span => { y with time := ⟨y.time.nanos + span.nanos⟩ }

def run (rounds : Nat) (y : Audience) (events : List Event) : Audience :=
  events.foldl (step rounds) y

end Audience

end LocalQueue

end ClaimQueue
