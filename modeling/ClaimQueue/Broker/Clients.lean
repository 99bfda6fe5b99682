import ClaimQueue.Broker.Server

/-! Several clients of one broker, each in the midst of an undertaking. They go on by one question at a
time, in any order; a client that never goes on again has stopped for good. A command can be lost on
its way to the broker, or its reply on the way back. What the broker carried out is kept on record.
-/

namespace ClaimQueue

namespace Broker

inductive Undertaking where
  | call (c : QueueCall)
  /-- Leaving the group. -/
  | retire

namespace Undertaking

abbrev Value : Undertaking → Type
  | call c => c.Value
  | retire => Bool

abbrev Outcome (u : Undertaking) : Type := Except QueueError u.Value

def work (rounds : Nat) (s : Settings) : (u : Undertaking) → Program asks u.Outcome
  | call c => Broker.answer rounds s c
  | retire => (Calls.retireConsumer s).run

end Undertaking

/-- An undertaking, and what is still to be done for it. -/
structure Underway where
  undertaking : Undertaking
  rest : Program asks undertaking.Outcome

structure Finished where
  undertaking : Undertaking
  outcome : undertaking.Outcome

structure Client where
  settings : Settings
  /-- Nothing, for an idle client. -/
  current : Option Underway := none
  /-- The latest first. -/
  history : List Finished := []

namespace Client

/-- Files a finished undertaking away. -/
def settle (c : Client) : Client :=
  match c.current with
  | some ⟨u, .done outcome⟩ => { c with current := none, history := ⟨u, outcome⟩ :: c.history }
  | _ => c

/-- A busy client begins nothing new. -/
def begin (rounds : Nat) (u : Undertaking) (c : Client) : Client :=
  match c.current with
  | some _ => c
  | none => { c with current := some ⟨u, u.work rounds c.settings⟩ }.settle

end Client

/-- What a client had the broker do. -/
structure Deed where
  client : Nat
  /-- How many undertakings the client had finished. -/
  turn : Nat
  undertaking : Undertaking
  settings : Settings
  ask : Ask
  before : Server

namespace Deed

def reply (d : Deed) : d.ask.Answer := (d.before.answer d.settings d.ask).1

def after (d : Deed) : Server := (d.before.answer d.settings d.ask).2

end Deed

/-- The answer to a question whose command or reply was lost; some questions go to nobody else. -/
def lostAnswer? (fault : LinkFault) : (q : Ask) → Option q.Answer
  | .connect _ => some (.error fault.detail)
  | .send _ | .sendWaiting _ | .transaction _ | .together _ => some (.error fault)
  | .elapsed | .clock | .pause _ => none

structure System where
  server : Server
  clients : List Client
  /-- The latest first. -/
  deeds : List Deed := []

inductive Event where
  | begin (client : Nat) (u : Undertaking)
  | go (client : Nat)
  /-- The next command is lost; `reached` tells whether the broker has carried it out. -/
  | lose (client : Nat) (fault : LinkFault) (reached : Bool)
  /-- Time passes. -/
  | wait (s : Span)

namespace System

/-- Clients that have connected to a broker with nothing in it. -/
def fresh (clock : Instant) (clients : List Settings) : System :=
  { server := { grouped := true, clock }, clients := clients.map fun s => { settings := s } }

/-- The next question of a client is answered by the broker. -/
def go (i : Nat) (y : System) : System :=
  match y.clients[i]? with
  | none => y
  | some c => match c.current with
    | some ⟨u, .ask q next⟩ =>
      let d : Deed := ⟨i, c.history.length, u, c.settings, q, y.server⟩
      { server := d.after
        clients := y.clients.set i { c with current := some ⟨u, next d.reply⟩ }.settle
        deeds := d :: y.deeds }
    | _ => y

def lose (i : Nat) (fault : LinkFault) (reached : Bool) (y : System) : System :=
  match y.clients[i]? with
  | none => y
  | some c => match c.current with
    | some ⟨u, .ask q next⟩ => match lostAnswer? fault q with
      | none => y
      | some r =>
        let d : Deed := ⟨i, c.history.length, u, c.settings, q, y.server⟩
        { server := if reached then d.after else y.server
          clients := y.clients.set i { c with current := some ⟨u, next r⟩ }.settle
          deeds := if reached then d :: y.deeds else y.deeds }
    | _ => y

def wait (s : Span) (w : Server) : Server :=
  { w with
    clock := (w.clock.later? s).getD w.clock
    time := ⟨w.time.nanos + s.nanos⟩ }

def step (rounds : Nat) (y : System) : Event → System
  | .begin i u => match y.clients[i]? with
    | none => y
    | some c => { y with clients := y.clients.set i (c.begin rounds u) }
  | .go i => y.go i
  | .lose i fault reached => y.lose i fault reached
  | .wait s => { y with server := wait s y.server }

def run (rounds : Nat) (y : System) (events : List Event) : System :=
  events.foldl (step rounds) y

end System

end Broker

end ClaimQueue
