import ClaimQueue.Program
import ClaimQueue.Worker.Config

/-! A worker's run: it claims a task, runs one handler, publishes the result and then retires or
hands back the claim. A worker never retries. A task it cannot run goes back untouched; a handler
that breaks down leaves its claim to be reclaimed, as does a failure that asks for another attempt.
-/

namespace ClaimQueue

namespace Worker

inductive Ask where
  /-- Whether the worker was told to stop. -/
  | stopSeen
  /-- The time that has passed. -/
  | elapsed
  /-- The date and time. -/
  | clock
  /-- Waits for a task; no answer if told to stop meanwhile. -/
  | pop (wait : Span)
  | release (id : String)
  | ack (id : String)
  | publish (result : TaskResult)
  /-- Lets the handler work. -/
  | labour (work : Labour)
  | pause (s : Span)

abbrev Ask.Answer : Ask → Type
  | .stopSeen => Bool
  | .elapsed => Span
  | .clock => Instant
  | .pop _ => Option (Except QueueError (Option Task))
  | .release _ | .ack _ | .publish _ => Except QueueError Unit
  | .labour _ => Outcome
  | .pause _ => Unit

abbrev asks : Interface := ⟨Ask, Ask.Answer⟩

/-- Work that a failing queue or handler ends. -/
abbrev Job (α : Type) := ExceptT Error (Program asks) α

def ask (q : Ask) : Program asks q.Answer := Program.call (I := asks) q

/-- A call on the queue that must succeed. -/
def must (p : Program asks (Except QueueError Unit)) : Job Unit :=
  ExceptT.mk do
    match ← p with
    | .ok () => return .ok ()
    | .error e => return .error (.queue e)

/-- What became of a claimed task. -/
inductive Disposition where
  /-- A result was published. -/
  | finished
  /-- Handed back without a result. -/
  | rejected
  deriving DecidableEq, Repr

/-- The result for an outcome, or the message of a handler that broke down. -/
def resultOf (t : Task) (now : Instant) : Outcome → Except String TaskResult
  | .done data => .ok (.ok t data now)
  | .skip reason => .ok (.skip t reason now)
  | .failed e => .ok (.error t e.message e.isRetryable now)
  | .fault message => .error message

/-- After publishing: a skipped task goes back, a failure that asks for another attempt keeps its
claim, all else is retired. -/
def settle (id : String) (r : TaskResult) : Job Unit :=
  match r.status with
  | .ok => must (ask (.ack id))
  | .error => if r.isRetryable then pure () else must (ask (.ack id))
  | .skip => must (ask (.release id))

def handBack (id : String) : Job Disposition := do
  must (ask (.release id))
  return .rejected

def refuse (t : Task) (e : WireError) : Job Disposition := do
  let now ← ask .clock
  must (ask (.publish (.error t e.message false now)))
  must (ask (.ack t.id))
  return .finished

def execute (h : Handler) (t : Task) : Job Disposition := do
  let outcome ← ask (.labour (h.run t))
  let now ← ask .clock
  match resultOf t now outcome with
  | .error message => throw (.handlerFault h.name t.id message)
  | .ok r =>
    must (ask (.publish r))
    settle t.id r
    return .finished

def process (w : Template) (t : Task) : Job Disposition :=
  if t.requires.within w.config.caps then
    match t.checkSchema with
    | .error e => refuse t e
    | .ok () =>
      match w.registry.select? t.kind t.requires w.config.caps w.config.allow with
      | none => handBack t.id
      | some h => execute h t
  else handBack t.id

structure Progress where
  completed : Nat
  /-- Start, or end of the last finished task. -/
  idleSince : Span

/-- Whether to leave, and else how long the next wait may be. Of several reasons the first counts.
-/
def next (c : Config) (started now : Span) (stop : Bool) (p : Progress) : Reason ⊕ Span :=
  let idleLeft := c.idleLimit.less (now.less p.idleSince)
  let upLeft := match c.uptimeLimit with
    | some limit => limit.less (now.less started)
    | none => .longest
  if stop then .inl .shutdown
  else if c.tasks ≤ p.completed then .inl .completed
  else if upLeft.isZero then .inl .maxUptime
  else if idleLeft.isZero then .inl .idleTimeout
  else .inr ((c.poll.least idleLeft).least upLeft)

/-- A claimed task, to its end. -/
def serve (w : Template) (p : Progress) (t : Task) :
    Program asks (Progress ⊕ Except Error Exit) := do
  match ← (process w t).run with
  | .error e => return .inr (.error e)
  | .ok .finished => return .inl ⟨p.completed + 1, ← ask .elapsed⟩
  | .ok .rejected =>
    ask (.pause w.config.backoff)
    return .inl p

def round (w : Template) (started : Span) (p : Progress) :
    Program asks (Progress ⊕ Except Error Exit) := do
  let stop ← ask .stopSeen
  let now ← ask .elapsed
  match next w.config started now stop p with
  | .inl reason => return .inr (.ok ⟨reason, p.completed⟩)
  | .inr wait =>
    match ← ask (.pop wait) with
    | none => return .inl p
    | some (.error e) => return .inr (.error (.queue e))
    | some (.ok none) => return .inl p
    | some (.ok (some t)) => serve w p t

def run (rounds : Nat) (w : Template) : Program asks (Except Error Exit) := do
  let started ← ask .elapsed
  Program.loop (round w started) rounds ⟨0, started⟩

end Worker

end ClaimQueue
