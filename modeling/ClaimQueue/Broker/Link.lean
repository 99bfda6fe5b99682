import ClaimQueue.Broker.Entry
import ClaimQueue.Program

/-! Talking to a broker: commands alone, several as one transaction, or several at once without
being one. Waiting reads have a connection of their own, so they hold up nothing else. -/

namespace ClaimQueue

namespace Broker

inductive LinkFault where
  /-- The connection broke, or there is none. -/
  | lost (detail : String)
  /-- The broker answered with an error, whose first word is its code. -/
  | refused (code detail : String)
  deriving DecidableEq, Repr

inductive Ask where
  /-- Opens a connection; the first is for all but waiting reads. -/
  | connect (s : Settings)
  | send (c : Command)
  /-- Sends on the connection for waiting reads. -/
  | sendWaiting (c : Command)
  /-- All or nothing, with nothing in between. -/
  | transaction (cs : List Command)
  | together (cs : List Command)
  | elapsed
  | clock
  | pause (s : Span)

abbrev Ask.Answer : Ask → Type
  | .connect _ => Except String Unit
  | .send _ | .sendWaiting _ | .transaction _ => Except LinkFault Reply
  | .together _ => Except LinkFault (List Reply)
  | .elapsed => Span
  | .clock => Instant
  | .pause _ => Unit

abbrev asks : Interface := ⟨Ask, Ask.Answer⟩

def ask (q : Ask) : Program asks q.Answer := Program.call (I := asks) q

def LinkFault.detail : LinkFault → String
  | .lost detail => detail
  | .refused _ detail => detail

def LinkFault.toQueueError : LinkFault → QueueError
  | .lost detail => .transport detail
  | .refused _ detail => .protocol (.refused detail)

def LinkFault.toStoreError (e : LinkFault) : StoreError := .backend e.detail

/-- Work that any failure ends. -/
abbrev Job (ε α : Type) := ExceptT ε (Program asks) α

def Job.of {ε α : Type} (fault : LinkFault → ε) (p : Program asks (Except LinkFault α)) :
    Job ε α :=
  ExceptT.mk do
    match ← p with
    | .ok a => return .ok a
    | .error e => return .error (fault e)

def Job.ofExcept {ε α : Type} (r : Except ε α) : Job ε α := ExceptT.mk (pure r)

def mistyped : QueueError := .protocol .mistyped

def send (c : Command) : Job QueueError Reply := Job.of LinkFault.toQueueError (ask (.send c))

/-- Sends a command whose reply does not matter. -/
def tell (c : Command) : Job QueueError Unit := do
  let _ ← send c
  return ()

def read {α : Type} (parse : Reply → Option α) (c : Command) : Job QueueError α := do
  match parse (← send c) with
  | some a => return a
  | none => throw mistyped

def transact (cs : List Command) : Job QueueError Unit := do
  match ← Job.of LinkFault.toQueueError (ask (.transaction cs)) with
  | .list _ | .nil => return ()
  | _ => throw mistyped

end Broker

end ClaimQueue
