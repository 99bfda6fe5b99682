import ClaimQueue.Broker.Address
import ClaimQueue.Broker.Calls

/-! A broker that answers from a script. Each command takes the next reply, a transaction takes one,
and what was sent is kept. Time passes only in pauses. -/

namespace ClaimQueue

namespace Broker

inductive Sent where
  | alone (c : Command)
  /-- On the connection for waiting reads. -/
  | waiting (c : Command)
  | transaction (cs : List Command)
  deriving DecidableEq, Repr

inductive Line where
  | reply (r : Except LinkFault Reply)
  /-- No answer ever comes. -/
  | silence

def Line.heard : Line → Except LinkFault Reply
  | .reply r => r
  | .silence => .error (.lost "no answer")

structure Scripted where
  /-- Why no connection can be opened, if none can. -/
  unreachable : Option String := none
  replies : List Line := []
  /-- The fault once the script has ended. -/
  exhausted : LinkFault := .refused "ERR" "script exhausted"
  /-- The latest first. -/
  sent : List Sent := []
  time : Span := ⟨0⟩
  clock : Instant

namespace Scripted

def record (sent : Sent) (b : Scripted) : Scripted := { b with sent := sent :: b.sent }

def reply (b : Scripted) : Except LinkFault Reply × Scripted :=
  match b.replies with
  | [] => (.error b.exhausted, b)
  | line :: rest => (line.heard, { b with replies := rest })

def isSilent (b : Scripted) : Bool :=
  match b.replies with
  | .silence :: _ => true
  | _ => false

/-- One reply for each command, then the first fault among them. -/
def replyAll : List Command → Scripted → Except LinkFault (List Reply) × Scripted
  | [], b => (.ok [], b)
  | c :: rest, b =>
    let (r, b) := (b.record (.alone c)).reply
    let (rs, b) := replyAll rest b
    (do return (← r) :: (← rs), b)

/-- Without a reply in the script every command of a transaction is answered with 1. -/
def execute (cs : List Command) (b : Scripted) : Except LinkFault Reply × Scripted :=
  let b := b.record (.transaction cs)
  if b.replies.isEmpty then (.ok (.list (cs.map fun _ => .int 1)), b) else b.reply

def answer (q : Ask) (b : Scripted) : q.Answer × Scripted :=
  match q with
  | .connect s => (match b.unreachable, Address.ofUrl? s.url with
    | some detail, _ => .error detail
    | none, none => .error "no such address"
    | none, some _ => .ok (), b)
  | .send c => (b.record (.alone c)).reply
  | .sendWaiting c => (b.record (.waiting c)).reply
  | .transaction cs => b.execute cs
  | .together cs => replyAll cs b
  | .elapsed => (b.time, b)
  | .clock => (b.clock, b)
  | .pause s => ((), { b with time := ⟨b.time.nanos + s.nanos⟩ })

end Scripted

end Broker

end ClaimQueue
