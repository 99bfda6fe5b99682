import ClaimQueue.Broker.Calls
import ClaimQueue.Index

/-! A broker in memory, which does what the commands mean. Each command is one step, as is each
transaction. Entries are numbered as they arrive; those past the last delivered one wait, and each
delivered one is held by a consumer until it is acknowledged, even when it was deleted. -/

namespace ClaimQueue

namespace Broker

/-- A delivered entry that was not acknowledged. -/
structure Holding where
  entry : Nat
  consumer : String
  since : Instant
  deriving DecidableEq

structure Server where
  grouped : Bool := false
  /-- The number of the newest entry. -/
  newest : Nat := 0
  /-- In order of arrival. An entry without a task field has no body. -/
  entries : List (Nat × Option (List UInt8)) := []
  /-- The number of the entry delivered last. -/
  delivered : Nat := 0
  /-- By entry, ascending. -/
  held : List Holding := []
  /-- When each consumer was last heard of. -/
  consumers : Index Instant := []
  claims : Index String := []
  results : Index (List UInt8) := []
  /-- The newest first. -/
  dead : List (List UInt8) := []
  /-- The newest first. -/
  parked : List (List UInt8) := []
  clock : Instant
  time : Span := ⟨0⟩
  deriving DecidableEq

namespace Server

def entryId (n : Nat) : String := toString n ++ "-0"

def bulk (s : String) : Reply := .bulk (Text.Utf8.bytes s)

def count (b : Bool) : Reply := .int (if b then 1 else 0)

def entryReply (e : Nat × Option (List UInt8)) : Reply :=
  .list [bulk (entryId e.1), .list (match e.2 with
    | some body => [bulk taskField, .bulk body]
    | none => [])]

/-- Entries that were delivered to nobody. -/
def waiting (w : Server) : List (Nat × Option (List UInt8)) :=
  w.entries.filter fun e => decide (w.delivered < e.1)

def find? (n : Nat) (w : Server) : Option (Nat × Option (List UInt8)) :=
  w.entries.find? fun e => e.1 == n

def heard (consumer : String) (w : Server) : Server :=
  { w with consumers := Index.put consumer w.clock w.consumers }

/-- Milliseconds since a time. -/
def idle (w : Server) (since : Instant) : Nat := (w.clock.since since).toNat / 1000000

def createGroup (w : Server) : Except LinkFault Reply × Server :=
  if w.grouped then
    (.error (.refused "BUSYGROUP" "BUSYGROUP Consumer Group name already exists"), w)
  else (.ok .okay, { w with grouped := true })

def append (body : Option (List UInt8)) (w : Server) : Server :=
  { w with newest := w.newest + 1, entries := w.entries ++ [(w.newest + 1, body)] }

def acknowledge (entry : String) (w : Server) : Reply × Server :=
  (count (w.held.any fun h => entryId h.entry == entry),
    { w with held := w.held.filter fun h => entryId h.entry != entry })

def delete (entry : String) (w : Server) : Reply × Server :=
  (count (w.entries.any fun e => entryId e.1 == entry),
    { w with entries := w.entries.filter fun e => entryId e.1 != entry })

/-- Delivers the oldest waiting entry. -/
def deliver (s : Settings) (w : Server) : Reply × Server :=
  let w := w.heard s.consumer
  match w.waiting with
  | [] => (.nil, w)
  | e :: _ => (.list [.list [bulk s.stream, .list [entryReply e]]],
      { w with delivered := e.1, held := w.held ++ [⟨e.1, s.consumer, w.clock⟩] })

/-- The holdings that a takeover looks at: ten for each that it may take. -/
def scanned (batch : Nat) (w : Server) : List Holding := w.held.take (10 * batch)

def isIdle (millis : Nat) (w : Server) (h : Holding) : Bool := decide (millis ≤ w.idle h.since)

def taken (millis batch : Nat) (w : Server) : List Holding :=
  ((w.scanned batch).filter (w.isIdle millis)).take batch

/-- Entries that were deleted meanwhile are let go; the others change hands and are fresh again. -/
def takeOver (s : Settings) (millis batch : Nat) (w : Server) : Reply × Server :=
  let w := w.heard s.consumer
  let taken := w.taken millis batch
  let found := taken.filterMap fun h => w.find? h.entry
  let gone := taken.filter fun h => (w.find? h.entry).isNone
  let pass (h : Holding) : Option Holding :=
    if taken.contains h then
      if gone.contains h then none else some ⟨h.entry, s.consumer, w.clock⟩
    else some h
  (.list [bulk "0-0", .list (found.map entryReply),
      .list (gone.map fun h => bulk (entryId h.entry))],
    { w with held := w.held.filterMap pass })

def holdings (consumer : String) (w : Server) : List Holding :=
  w.held.filter fun h => h.consumer == consumer

def summary (w : Server) : Reply :=
  match w.held.head?, w.held.getLast? with
  | some first, some last =>
    let names := w.consumers.keys.filter fun c => !(w.holdings c).isEmpty
    .list [.int w.held.length, bulk (entryId first.entry), bulk (entryId last.entry),
      .list (names.map fun c => .list [bulk c, bulk (toString (w.holdings c).length)])]
  | _, _ => .list [.int 0, .nil, .nil, .nil]

def holdingReply (w : Server) (h : Holding) : Reply :=
  .list [bulk (entryId h.entry), bulk h.consumer, .int (w.idle h.since), .int 1]

def consumerReply (w : Server) (e : String × Instant) : Reply :=
  .list [bulk "name", bulk e.1, bulk "pending", .int (w.holdings e.1).length,
    bulk "idle", .int (w.idle e.2)]

/-- Forgets a consumer and all that it holds. -/
def forget (consumer : String) (w : Server) : Reply × Server :=
  (.int (w.holdings consumer).length, { w with
    consumers := Index.erase consumer w.consumers
    held := w.held.filter fun h => h.consumer != consumer })

/-- The first items of a list; a negative number counts from its end. -/
def upTo {α : Type} (stop : Int) (items : List α) : List α :=
  items.take ((if stop < 0 then stop + items.length else stop) + 1).toNat

def fieldReplies (fields : Index (List UInt8)) : List Reply :=
  fields.flatMap fun e => [bulk e.1, .bulk e.2]

/-- What a command does, and its reply. -/
def perform (s : Settings) (c : Command) (w : Server) : Except LinkFault Reply × Server :=
  let done (r : Reply × Server) : Except LinkFault Reply × Server := (.ok r.1, r.2)
  match c with
  | .createGroup => w.createGroup
  | .append body => done (bulk (entryId (w.newest + 1)), w.append (some body))
  | .acknowledge entry => done (w.acknowledge entry)
  | .delete entry => done (w.delete entry)
  | .readNew _ => done (w.deliver s)
  | .readEntry entry =>
    done (.list ((w.entries.filter fun e => entryId e.1 == entry).map entryReply), w)
  | .takeIdle millis batch => done (w.takeOver s millis batch)
  | .length => done (.int w.entries.length, w)
  | .claimSummary => done (w.summary, w)
  | .ownClaims => done (.list (((w.holdings s.consumer).take 1).map w.holdingReply), w)
  | .consumers => done (.list (w.consumers.map w.consumerReply), w)
  | .forget consumer => done (w.forget consumer)
  | .claimOf id => done (((Index.find? id w.claims).map bulk).getD .nil, w)
  | .setClaim id value =>
    done (count !(Index.holds id w.claims), { w with claims := Index.put id value w.claims })
  | .dropClaim id =>
    done (count (Index.holds id w.claims), { w with claims := Index.erase id w.claims })
  | .saveResult id body =>
    done (count !(Index.holds id w.results),
      { w with results := Index.put id (Text.Utf8.bytes body) w.results })
  | .resultOf id => done (((Index.find? id w.results).map Reply.bulk).getD .nil, w)
  | .scanResults _ => done (.list [bulk "0", .list (fieldReplies w.results)], w)
  | .bury letter =>
    done (.int (w.dead.length + 1), { w with dead := Text.Utf8.bytes letter :: w.dead })
  | .letters stop => done (.list ((upTo stop w.dead).map Reply.bulk), w)
  | .unbury letter =>
    let bytes := Text.Utf8.bytes letter
    done (count (w.dead.contains bytes), { w with dead := w.dead.erase bytes })
  | .letterCount => done (.int w.dead.length, w)
  | .park body => done (.int (w.parked.length + 1), { w with parked := body :: w.parked })

def performAll (s : Settings) : List Command → Server → Except LinkFault (List Reply) × Server
  | [], w => (.ok [], w)
  | c :: rest, w =>
    let (r, w) := w.perform s c
    let (rs, w) := performAll s rest w
    (do return (← r) :: (← rs), w)

/-- A waiting read that finds nothing waits as long as it may. -/
def waited (c : Command) (r : Except LinkFault Reply) (w : Server) : Server :=
  match c, r with
  | .readNew (some millis), .ok .nil => { w with time := ⟨w.time.nanos + millis * 1000000⟩ }
  | _, _ => w

/-- The broker as surroundings of a client with these settings. -/
def answer (s : Settings) (q : Ask) (w : Server) : q.Answer × Server :=
  match q with
  | .connect _ => (.ok (), w)
  | .send c => w.perform s c
  | .sendWaiting c =>
    let (r, w) := w.perform s c
    (r, w.waited c r)
  | .transaction cs =>
    let (rs, w) := w.performAll s cs
    (rs.map Reply.list, w)
  | .together cs => w.performAll s cs
  | .elapsed => (w.time, w)
  | .clock => (w.clock, w)
  | .pause span => ((), { w with time := ⟨w.time.nanos + span.nanos⟩ })

end Server

end Broker

end ClaimQueue
