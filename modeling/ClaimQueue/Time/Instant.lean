import ClaimQueue.Time.Date
import ClaimQueue.Time.Span

/-! Instants in coordinated universal time: a date, a second of the day and nanoseconds. A second 60
is kept: it is the second before it with nanoseconds past `10 ^ 9`. -/

namespace ClaimQueue

structure Instant where
  date : Date
  second : Nat
  nano : Nat
  second_range : second < 86400
  nano_range : nano < 2000000000
  leap : 1000000000 ≤ nano → second % 60 = 59
  deriving DecidableEq, Repr

namespace Instant

def of? (date : Date) (second nano : Nat) : Option Instant :=
  if h : second < 86400 ∧ nano < 2000000000 ∧ (1000000000 ≤ nano → second % 60 = 59) then
    some ⟨date, second, nano, h.1, h.2.1, h.2.2⟩
  else none

/-- The first instant of 1970. -/
def epoch : Instant :=
  ⟨⟨1970, 1, 1, by decide, by decide, by decide⟩, 0, 0, by decide, by decide, by decide⟩

theorem of?_self (t : Instant) : of? t.date t.second t.nano = some t := by
  unfold of?
  rw [dif_pos ⟨t.second_range, t.nano_range, t.leap⟩]

def order (a b : Instant) : Ordering :=
  (a.date.order b.date).then ((compare a.second b.second).then (compare a.nano b.nano))

def atOrBefore (a b : Instant) : Bool := a.order b != .gt

/-- Nanoseconds from `b` to `a`. A second 60 counts as passed once the time of day is later. -/
def since (a b : Instant) : Int :=
  let days := a.date.number - b.date.number
  let seconds := (a.second : Int) - b.second
  let counted : Int :=
    if b.second < a.second ∧ 1000000000 ≤ b.nano then 1
    else if a.second < b.second ∧ 1000000000 ≤ a.nano then -1
    else 0
  (days * 86400 + seconds + counted) * 1000000000 + ((a.nano : Int) - b.nano)

/-- The longest span between instants that is told apart: `2 ^ 63 - 1` milliseconds. -/
def longestAge : Nat := (2 ^ 63 - 1) * 1000000

/-- The span as an age limit. -/
def ageLimit (s : Span) : Int := min s.nanos longestAge

/-- The instant a span later, if the calendar reaches so far. Within a second 60 a part of a second
may still be added; more leads out of it. -/
def later? (t : Instant) (s : Span) : Option Instant :=
  let n := min s.nanos longestAge
  let whole := n / 1000000000
  let part := n % 1000000000
  if 1000000000 ≤ t.nano ∧ whole = 0 ∧ t.nano + part < 2000000000 then
    of? t.date t.second (t.nano + part)
  else
    let nano := (if 1000000000 ≤ t.nano then t.nano - 1000000000 else t.nano) + part
    let seconds := t.second + whole + nano / 1000000000
    match Date.ofNumber? (t.date.number + (seconds / 86400 : Nat)) with
    | none => none
    | some date => of? date (seconds % 86400) (nano % 1000000000)

/-- Milliseconds since 1970-01-01T00:00:00Z, rounded down. -/
def epochMillis (t : Instant) : Int :=
  (t.date.number * 86400 + t.second) * 1000 + (t.nano / 1000000 : Nat)

end Instant

end ClaimQueue
