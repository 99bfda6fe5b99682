import ClaimQueue.Broker.Command
import ClaimQueue.Broker.Reply
import ClaimQueue.Queue.Error

/-! Entries of the stream, claims, and what the broker tells of consumers, read from replies. -/

namespace ClaimQueue

namespace Broker

structure Entry where
  id : String
  /-- None, if the entry has no task field, or was deleted. -/
  body : Option (List UInt8)
  deriving DecidableEq, Repr

def Entry.task (e : Entry) : Except WireError Task :=
  match e.body with
  | some body => Task.ofBytes body
  | none => .error (.malformed (.missingField taskField))

def unexpected {α : Type} (what : String) (r : Reply) : Except QueueError α :=
  .error (.protocol (.unexpected what r.shown))

/-- The first task field. A list of odd length has a field without a body at its end. -/
def taskBody : List Reply → Option (List UInt8)
  | .bulk key :: .bulk body :: rest =>
    if key = Text.Utf8.bytes taskField then some body else taskBody rest
  | _ :: _ :: rest => taskBody rest
  | _ => none

/-- Nothing for an entry that was deleted meanwhile. -/
def Entry.ofReply : Reply → Except QueueError (Option Entry)
  | .nil => .ok none
  | .list [id, fields] =>
    match id.plainText? with
    | none => unexpected "entry id" id
    | some name => match fields with
      | .list items => .ok (some ⟨name, taskBody items⟩)
      | .nil => .ok (some ⟨name, none⟩)
      | other => unexpected "entry fields" other
  | other => unexpected "stream entry" other

def entriesOf : Reply → Except QueueError (List Entry)
  | .nil => .ok []
  | .list items => do return (← items.mapM Entry.ofReply).filterMap id
  | other => unexpected "entry list" other

def streamEntries : Reply → Except QueueError (List Entry)
  | .list [_, entries] => entriesOf entries
  | other => unexpected "stream reply" other

/-- Nothing after a wait in vain, else the entries of each stream. -/
def readEntries : Reply → Except QueueError (List Entry)
  | .nil => .ok []
  | .list streams => do return (← streams.mapM streamEntries).flatten
  | other => unexpected "XREADGROUP reply" other

/-- A cursor, entries, and perhaps what was deleted. -/
def takenEntries : Reply → Except QueueError (List Entry)
  | .list (_ :: entries :: _) => entriesOf entries
  | other => unexpected "XAUTOCLAIM reply" other

def claimCount (r : Reply) : Except QueueError Nat :=
  match r with
  | .list (.int n :: _) => .ok n.toNat
  | r => unexpected "XPENDING summary" r

/-- Entry and owner of a claim. -/
def claimValue (entry owner : String) : String := entry ++ " " ++ owner

def claimParts? (claim : String) : Option (String × String) :=
  let cs := claim.toList
  let entry := cs.takeWhile (· ≠ ' ')
  match cs.dropWhile (· ≠ ' ') with
  | _ :: owner =>
    if entry.isEmpty || owner.isEmpty then none
    else some (String.ofList entry, String.ofList owner)
  | [] => none

structure Consumer where
  name : String
  /-- Entries that it holds. -/
  holds : Nat
  idle : Nat
  deriving DecidableEq, Repr

structure ConsumerDraft where
  name : Option String := none
  holds : Nat := 0
  idle : Nat := 0

def ConsumerDraft.read (d : ConsumerDraft) (e : Reply × Reply) : ConsumerDraft :=
  match e.1.plainText?, e.2 with
  | some "name", v => { d with name := v.plainText? }
  | some "pending", .int n => { d with holds := n.toNat }
  | some "idle", .int n => { d with idle := n.toNat }
  | _, _ => d

def Consumer.ofReply (r : Reply) : Except QueueError Consumer :=
  match r with
  | .list fields =>
    let d := (Reply.pairs fields).foldl ConsumerDraft.read {}
    match d.name with
    | some name => .ok ⟨name, d.holds, d.idle⟩
    | none => unexpected "consumer info" r
  | _ => unexpected "consumer info" r

def consumersOf : Reply → Except QueueError (List Consumer)
  | .list items => items.mapM Consumer.ofReply
  | other => unexpected "XINFO CONSUMERS reply" other

end Broker

end ClaimQueue
