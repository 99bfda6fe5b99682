import ClaimQueue.Broker.Results
import ClaimQueue.Queue.Call

/-! The calls of a task queue on a broker. A claim is an entry delivered to a consumer of the group
and not yet acknowledged, so it outlives its worker. To take back a claim its entry is taken over
when it lay idle, and in one transaction a copy is appended with one more attempt and the entry
removed. -/

namespace ClaimQueue

namespace Broker

namespace Calls

/-- Removes an entry; with it a claim, if one is named. -/
def retire (entry : String) (id : Option String) : Job QueueError Unit :=
  transact ([.acknowledge entry, .delete entry] ++ (id.map Command.dropClaim).toList)

/-- Puts an unreadable entry aside. -/
def quarantine (e : Entry) : Job QueueError Unit :=
  transact [.park (e.body.getD []), .acknowledge e.id, .delete e.id]

/-- The longest wait for an entry, in milliseconds. No wait at all would mean for ever. -/
def waitMillis (s : Span) : Nat := min (max s.millis 1) (2 ^ 32 - 1)

def readOne (wait : Option Span) : Job QueueError (Option Entry) := do
  let reply ← match wait with
    | some s =>
      Job.of LinkFault.toQueueError (ask (.sendWaiting (.readNew (some (waitMillis s)))))
    | none => send (.readNew none)
  return (← Job.ofExcept (readEntries reply)).head?

def publish (r : TaskResult) : Job QueueError Unit :=
  ExceptT.mk do
    match ← (Results.save r).run with
    | .ok () => return .ok ()
    | .error e => return .error (.resultPersist e)

/-- Answers an entry that no one can run, or puts it aside if nobody could be told. -/
def dispose (e : Entry) (fault : WireError) : Job QueueError Unit := do
  match fault.taskId? with
  | some id =>
    let now ← ask .clock
    publish (.refused id fault.message now)
    retire e.id none
  | none => quarantine e

/-- How long may still be waited; none when the time is over. -/
def patience (deadline : Option Span) : Job QueueError (Option (Option Span)) := do
  match deadline with
  | none => return some none
  | some deadline =>
    let left := deadline.less (← ask .elapsed)
    return if left.isZero then none else some (some left)

def popRound (s : Settings) (deadline : Option Span) : Job QueueError (Unit ⊕ Option Task) := do
  match ← patience deadline with
  | none => return .inr none
  | some wait =>
    match ← readOne wait with
    | none => return .inr none
    | some e => match e.task with
      | .ok t =>
        tell (.setClaim t.id (claimValue e.id s.consumer))
        return .inr (some t)
      | .error fault =>
        dispose e fault
        return .inl ()

def pop (rounds : Nat) (s : Settings) (block : Bool) (timeout : Span) :
    Job QueueError (Option Task) := do
  let start ← ask .elapsed
  let deadline : Option Span := if block then some ⟨start.nanos + timeout.nanos⟩ else none
  Program.tryLoop (fun _ => popRound s deadline) rounds ()

/-- The entry of a claim, if this client holds it. A claim that was taken back and given out again
belongs to another. -/
def ownClaim (s : Settings) (id : String) : Job QueueError (Option String) := do
  match ← read (Reply.optional? Reply.text?) (.claimOf id) with
  | none => return none
  | some claim => match claimParts? claim with
    | some (entry, owner) => return if owner = s.consumer then some entry else none
    | none => throw (.protocol (.unreadableClaim id claim))

def ack (s : Settings) (id : String) : Job QueueError Unit := do
  match ← ownClaim s id with
  | none => return ()
  | some entry => retire entry (some id)

def entryBody (entry : String) : Job QueueError (Option (List UInt8)) := do
  let entries ← Job.ofExcept (entriesOf (← send (.readEntry entry)))
  return entries.head?.bind (·.body)

def release (s : Settings) (id : String) : Job QueueError Unit := do
  match ← ownClaim s id with
  | none => return ()
  | some entry => match ← entryBody entry with
    | none => tell (.dropClaim id)
    | some body => transact [.append body, .acknowledge entry, .delete entry, .dropClaim id]

def getResult (id : String) : Job QueueError (Option TaskResult) :=
  ExceptT.mk do
    match ← (Results.get id).run with
    | .ok r => return .ok r
    | .error e => return .error (.resultPersist e)

def awaitRound (s : Settings) (id : String) (deadline : Span) :
    Job QueueError (Unit ⊕ Option TaskResult) := do
  match ← getResult id with
  | some r => return .inr (some r)
  | none =>
    let left := deadline.less (← ask .elapsed)
    if left.isZero then return .inr none
    else
      ask (.pause (left.least s.resultPoll))
      return .inl ()

def awaitResult (rounds : Nat) (s : Settings) (id : String) (timeout : Span) :
    Job QueueError (Option TaskResult) := do
  let start ← ask .elapsed
  Program.tryLoop (fun _ => awaitRound s id ⟨start.nanos + timeout.nanos⟩) rounds ()

/-- What is done with a task whose claim was taken back, before its entry goes. -/
def moved (s : Settings) (now : Instant) (t : Task) : Command :=
  match s.retry.decide t.attempts with
  | .retry => .append (Text.Utf8.bytes t.encoded)
  | .deadLetter => .bury (DeadLetter.encoded ⟨t, s.retry.reason t.attempts, now⟩)

/-- Whether the task of an entry that was taken over went back to pending. -/
def takeBack (s : Settings) (e : Entry) : Job QueueError Bool := do
  match e.task with
  | .error _ =>
    quarantine e
    return false
  | .ok t =>
    let t := t.bumped
    let now ← ask .clock
    transact [moved s now t, .acknowledge e.id, .delete e.id, .dropClaim t.id]
    return s.retry.decide t.attempts == .retry

def takeBackAll (s : Settings) : List Entry → Job QueueError Nat
  | [] => return 0
  | e :: rest => do
    let again ← takeBack s e
    let n ← takeBackAll s rest
    return if again then n + 1 else n

def wholeMillis (s : Span) : Nat := min s.millis (2 ^ 64 - 1)

def reclaim (s : Settings) (idle : Span) (batch : Nat) : Job QueueError Nat := do
  if batch = 0 then return 0
  else
    let reply ← send (.takeIdle (wholeMillis idle) batch)
    takeBackAll s (← Job.ofExcept (takenEntries reply))

def forget (consumer : String) : Job QueueError Unit := do
  let _ ← read Reply.integer? (.forget consumer)
  return ()

/-- Others that hold nothing and were idle long enough. -/
def isIdle (s : Settings) (idle : Nat) (c : Consumer) : Bool :=
  c.holds == 0 && decide (idle ≤ c.idle) && c.name != s.consumer

def forgetAll : List Consumer → Job QueueError Nat
  | [] => return 0
  | c :: rest => do
    forget c.name
    return (← forgetAll rest) + 1

def prune (s : Settings) (idle : Span) : Job QueueError Nat := do
  let consumers ← Job.ofExcept (consumersOf (← send .consumers))
  forgetAll (consumers.filter (isIdle s (wholeMillis idle)))

/-- Leaves the group, unless this client still holds a claim. -/
def retireConsumer (s : Settings) : Job QueueError Bool := do
  match ← send .ownClaims with
  | .list [] =>
    forget s.consumer
    return true
  | _ => return false

/-- Removed entries are deleted, so the stream holds what is pending and what is claimed. -/
def counts : Job QueueError QueueCounts := do
  let asked := ask (.together [.length, .claimSummary, .letterCount])
  match ← Job.of LinkFault.toQueueError asked with
  | [length, summary, dead] => match length.size?, dead.size? with
    | some length, some dead =>
      let inFlight ← Job.ofExcept (claimCount summary)
      return ⟨length - inFlight, inFlight, dead, none⟩
    | _, _ => throw mistyped
  | _ => throw mistyped

/-- Unreadable letters are passed over. -/
def readable (letters : List String) : List (String × DeadLetter) :=
  letters.filterMap fun raw => match DeadLetter.decoder.ofText raw with
    | .ok d => some (raw, d)
    | .error _ => none

def deadLetters (limit : Nat) : Job QueueError (List DeadLetter) := do
  if limit = 0 then return []
  else
    let stop : Int := (min limit (2 ^ 63 - 1) : Nat) - 1
    return (readable (← read Reply.texts? (.letters stop))).map (·.2)

/-- Removes a dead letter for a task; nothing, if another was first. -/
def takeLetter (id : String) : Job QueueError (Option DeadLetter) := do
  match (readable (← read Reply.texts? (.letters (-1)))).find? fun e => e.2.task.id == id with
  | none => return none
  | some (raw, letter) =>
    let removed ← read Reply.size? (.unbury raw)
    return if removed = 0 then none else some letter

def append (t : Task) : Job QueueError Unit := do
  let _ ← read Reply.text? (.append (Text.Utf8.bytes t.encoded))
  return ()

def replay (id : String) : Job QueueError Bool := do
  match ← takeLetter id with
  | none => return false
  | some letter =>
    append letter.task
    return true

/-- Opens both connections and makes sure that stream and group exist. -/
def connect (s : Settings) : Job QueueError Unit := do
  let opened : Job QueueError Unit := ExceptT.mk do
    match ← ask (.connect s) with
    | .ok () => return .ok ()
    | .error detail => return .error (.transport detail)
  opened
  opened
  match ← ExceptT.lift (ask (.send .createGroup)) with
  | .ok _ => return ()
  | .error (.refused "BUSYGROUP" _) => return ()
  | .error e => throw e.toQueueError

end Calls

/-- A call as commands. `rounds` bounds how often a waiting call asks again. -/
def answer (rounds : Nat) (s : Settings) :
    (c : QueueCall) → Program asks (Except QueueError c.Value)
  | .enqueue t => (Calls.append t).run
  | .pop block timeout => (Calls.pop rounds s block timeout).run
  | .ack id => (Calls.ack s id).run
  | .release id => (Calls.release s id).run
  | .publish r => (Calls.publish r).run
  | .awaitResult id timeout => (Calls.awaitResult rounds s id timeout).run
  | .reclaim idle batch => (Calls.reclaim s idle batch).run
  | .prune idle => (Calls.prune s idle).run
  | .counts => Calls.counts.run
  | .deadLetters limit => (Calls.deadLetters limit).run
  | .replay id => (Calls.replay id).run
  | .discard id => (do return (← Calls.takeLetter id).isSome : Job QueueError Bool).run

end Broker

end ClaimQueue
