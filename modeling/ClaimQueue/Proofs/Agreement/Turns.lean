import ClaimQueue.Proofs.Broker.Replies
import ClaimQueue.Local.Callers
import ClaimQueue.Proofs.Local.Places
import ClaimQueue.Proofs.Program
import ClaimQueue.Proofs.Task.Exact
import ClaimQueue.Proofs.Time.Elapsed

/-! Calls that are made one after the other, each by some client and at some time: on a broker, and
on a queue in memory. Which calls may come next depends on what the queue holds, and on who holds
which claim. -/

namespace ClaimQueue

namespace Agreement

inductive Request where
  | call (c : QueueCall)
  /-- The result for a task. -/
  | result (id : String)

namespace Request

abbrev Value : Request → Type
  | call c => c.Value
  | result _ => Option TaskResult

abbrev Fault : Request → Type
  | call _ => QueueError
  | result _ => StoreError

abbrev Outcome (r : Request) : Type := Except r.Fault r.Value

def onBroker (rounds : Nat) (s : Broker.Settings) :
    (r : Request) → Program Broker.asks r.Outcome
  | call c => Broker.answer rounds s c
  | result id => (Broker.Results.get id).run

def inMemory (rounds : Nat) : (r : Request) → LocalQueue.Steps r.Outcome
  | call c => LocalQueue.answer rounds c
  | result id => do return .ok (← LocalQueue.access (.result id))

def isPop : Request → Bool
  | call (.pop _ _) => true
  | _ => false

/-- The task that was popped. -/
def popped? : (r : Request) → Option r.Outcome → Option Task
  | call (.pop _ _), some (.ok t) => t
  | _, _ => none

end Request

/-- A request of a client. The clock stands still until it is answered. -/
structure Turn where
  client : Broker.Settings
  clock : Instant
  request : Request

/-- A request, and what came of it; nothing, if a loop has used up its rounds. -/
abbrev Answered := (r : Request) × Option r.Outcome

namespace Answered

def Succeeded (a : Answered) : Prop := ∃ v, a.2 = some (.ok v)

/-- Without the age of the oldest pending task, which only a queue in memory knows. -/
def withoutAge : Answered → Answered
  | ⟨.call .counts, some (.ok c)⟩ => ⟨.call .counts, some (.ok { c with oldestPending := none })⟩
  | a => a

end Answered

/-- The surroundings of a queue in memory that nobody else uses meanwhile. Only its clock is the
turn's; `around` answers whatever else is asked. -/
def surroundings (policy : RetryPolicy) (clock : Instant) (around : LocalQueue.Surroundings) :
    (s : LocalQueue.Step) → LocalQueue → s.Answer × LocalQueue
  | .access a, q => a.perform policy clock q
  | .clock, q => (clock, q)
  | .elapsed, q => (around .elapsed, q)
  | .ring, q => ((), q)
  | .announce, q => ((), q)
  | .announced, q => (around .announced, q)
  | .attend deadline, q => (around (.attend deadline), q)
  | .attendResult seen deadline, q => (around (.attendResult seen deadline), q)

namespace Turn

/-- The broker's clock is the turn's. -/
def onBroker (rounds : Nat) (t : Turn) (w : Broker.Server) :
    Option t.request.Outcome × Broker.Server :=
  (t.request.onBroker rounds t.client).run (Broker.Server.answer t.client)
    { w with clock := t.clock }

def inMemory (rounds : Nat) (policy : RetryPolicy) (around : LocalQueue.Surroundings) (t : Turn)
    (q : LocalQueue) : Option t.request.Outcome × LocalQueue :=
  (t.request.inMemory rounds).run (surroundings policy t.clock around) q

end Turn

def runOnBroker (rounds : Nat) : List Turn → Broker.Server → List Answered × Broker.Server
  | [], w => ([], w)
  | t :: rest, w =>
    let (outcome, w) := t.onBroker rounds w
    let (answers, w) := runOnBroker rounds rest w
    (⟨t.request, outcome⟩ :: answers, w)

def runInMemory (rounds : Nat) (policy : RetryPolicy) (around : LocalQueue.Surroundings) :
    List Turn → LocalQueue → List Answered × LocalQueue
  | [], q => ([], q)
  | t :: rest, q =>
    let (outcome, q) := t.inMemory rounds policy around q
    let (answers, q) := runInMemory rounds policy around rest q
    (⟨t.request, outcome⟩ :: answers, q)

/-! Which turns may follow. -/

/-- A queue in memory, with what it does not keep itself. -/
structure Ledger where
  queue : LocalQueue := {}
  /-- The consumer that popped a task last. -/
  holders : Index String := []
  /-- When the last call was made. -/
  clock : Option Instant := none
  /-- When a task was last asked for. -/
  popped : Option Instant := none

namespace Ledger

def after (rounds : Nat) (policy : RetryPolicy) (around : LocalQueue.Surroundings) (t : Turn)
    (l : Ledger) : Ledger :=
  let (outcome, queue) := t.inMemory rounds policy around l.queue
  { queue
    holders := match t.request.popped? outcome with
      | some task => Index.put task.id t.client.consumer l.holders
      | none => l.holders
    clock := some t.clock
    popped := if t.request.isPop then some t.clock else l.popped }

/-- The client holds the claim, or nobody does. -/
def MayEnd (l : Ledger) (client : Broker.Settings) (id : String) : Prop :=
  l.queue.inFlight.find? id = none ∨ l.holders.find? id = some client.consumer

/-- No queue in memory could hold more tasks. -/
def Fits (l : Ledger) : Prop := l.queue.tasks.length < 2 ^ 63

/-- How deep documents may nest: a dead letter has one level more than its task. -/
def levels : Nat := Json.maxNesting - 1

def Admits (l : Ledger) (t : Turn) : Request → Prop
  | .call (.enqueue task) =>
    task.id ∉ l.queue.ids ∧ task.schemaVersion ≤ Task.supportedSchema ∧ task.Plain levels
  | .call (.pop block _) => block = false ∧ ∀ c, l.popped = some c → 0 < t.clock.since c
  | .call (.ack id) | .call (.release id) => l.MayEnd t.client id
  | .call (.publish r) => r.Plain levels
  | .call (.reclaim idle _) => idle.nanos % 1000000 = 0 ∧
    ∀ e ∈ l.queue.inFlight, t.clock.since e.2.claimedAt ≠ idle.nanos
  | .call .counts | .call (.deadLetters _) => l.Fits
  | .call (.replay _) | .call (.discard _) | .result _ => True
  | .call (.awaitResult _ _) | .call (.prune _) => False

/-- Clients have names and follow the same policy, and their clock counts milliseconds and never
goes back. -/
structure Proper (policy : RetryPolicy) (l : Ledger) (t : Turn) : Prop where
  named : t.client.consumer ≠ ""
  retry : t.client.retry = policy
  clock : t.clock.InMillis
  forward : ∀ c, l.clock = some c → 0 ≤ t.clock.since c
  admits : l.Admits t t.request

def Orderly (rounds : Nat) (policy : RetryPolicy) (around : LocalQueue.Surroundings) :
    Ledger → List Turn → Prop
  | _, [] => True
  | l, t :: rest => l.Proper policy t ∧
    Orderly rounds policy around (l.after rounds policy around t) rest

end Ledger

/-- What the broker holds decodes to what the queue in memory holds. -/
structure Decodes (w : Broker.Server) (q : LocalQueue) : Prop where
  /-- The undelivered entries, in their order. -/
  pending : w.waiting.map (fun e => (Broker.seen e).task) = q.pending.map .ok
  /-- The delivered entries that were not acknowledged, each with the time of its delivery. -/
  inFlight : (w.held.map fun h =>
      ((w.find? h.entry).map fun e => (Broker.seen e).task, h.since)).Perm
    (q.inFlight.map fun e => (some (.ok e.2.task), e.2.claimedAt))
  /-- The broker has the newest first. -/
  dead : w.dead.map DeadLetter.decoder.ofBytes = q.dead.reverse.map .ok
  results : w.results.map (fun e => (e.1, TaskResult.ofBytes e.2)) =
    q.results.map fun e => (e.1, .ok e.2)

end Agreement

end ClaimQueue
