import ClaimQueue.Local.Calls

/-! Several callers of one queue in memory, each in the midst of an undertaking. They go on by one
step at a time, in any order; a caller that never goes on again has stopped for good. A step on the
contents is done by the queue in one piece, and is kept on record. Every other step is answered by
the surroundings, in any way at all. -/

namespace ClaimQueue

namespace LocalQueue

inductive Undertaking where
  | call (c : QueueCall)
  /-- The result for a task. -/
  | result (id : String)
  /-- The results of a kind, or of all kinds, to the end of the list. -/
  | list (kind : Option TaskKind)

namespace Undertaking

abbrev Outcome : Undertaking → Type
  | call c => Except QueueError c.Value
  | result _ => Option TaskResult
  | list _ => List TaskResult

def work (rounds : Nat) : (u : Undertaking) → Steps u.Outcome
  | call c => LocalQueue.answer rounds c
  | result id => access (.result id)
  | list kind => do Calls.results kind (← access .resultIds)

end Undertaking

/-- An undertaking, and what is still to be done for it. -/
structure Underway where
  undertaking : Undertaking
  rest : Steps undertaking.Outcome

structure Finished where
  undertaking : Undertaking
  outcome : undertaking.Outcome

structure Caller where
  /-- Nothing, for an idle caller. -/
  current : Option Underway := none
  /-- The latest first. -/
  history : List Finished := []

namespace Caller

/-- Files a finished undertaking away. -/
def settle (c : Caller) : Caller :=
  match c.current with
  | some ⟨u, .done outcome⟩ => { current := none, history := ⟨u, outcome⟩ :: c.history }
  | _ => c

/-- A busy caller begins nothing new. -/
def begin (rounds : Nat) (u : Undertaking) (c : Caller) : Caller :=
  match c.current with
  | some _ => c
  | none => { c with current := some ⟨u, u.work rounds⟩ }.settle

end Caller

/-- What a caller did to the contents. -/
structure Deed where
  caller : Nat
  /-- How many undertakings the caller had finished. -/
  turn : Nat
  access : Access
  clock : Instant
  before : LocalQueue

namespace Deed

def answer (policy : RetryPolicy) (d : Deed) : d.access.Answer :=
  (d.access.perform policy d.clock d.before).1

def after (policy : RetryPolicy) (d : Deed) : LocalQueue :=
  (d.access.perform policy d.clock d.before).2

end Deed

structure System where
  policy : RetryPolicy
  queue : LocalQueue := {}
  callers : List Caller
  /-- The latest first. -/
  deeds : List Deed := []

/-- How the surroundings answer. What they would say of the contents does not count. -/
abbrev Surroundings := (s : Step) → s.Answer

inductive Event where
  | begin (caller : Nat) (u : Undertaking)
  | go (caller : Nat) (around : Surroundings)

namespace System

/-- A queue with nothing in it, and idle callers. -/
def fresh (policy : RetryPolicy) (callers : Nat) : System :=
  { policy, callers := List.replicate callers {} }

def go (i : Nat) (around : Surroundings) (y : System) : System :=
  match y.callers[i]? with
  | none => y
  | some c => match c.current with
    | some ⟨u, .ask (.access a) next⟩ =>
      let d : Deed := ⟨i, c.history.length, a, around .clock, y.queue⟩
      { y with
        queue := d.after y.policy
        callers := y.callers.set i { c with current := some ⟨u, next (d.answer y.policy)⟩ }.settle
        deeds := d :: y.deeds }
    | some ⟨u, .ask s next⟩ =>
      { y with
        callers := y.callers.set i { c with current := some ⟨u, next (around s)⟩ }.settle }
    | _ => y

def step (rounds : Nat) (y : System) : Event → System
  | .begin i u => match y.callers[i]? with
    | none => y
    | some c => { y with callers := y.callers.set i (c.begin rounds u) }
  | .go i around => y.go i around

def run (rounds : Nat) (y : System) (events : List Event) : System :=
  events.foldl (step rounds) y

end System

end LocalQueue

end ClaimQueue
