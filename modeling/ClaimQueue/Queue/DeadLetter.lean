import ClaimQueue.Json.Printer
import ClaimQueue.Task.Basic

/-! Dead letters and queue depths, with their documents. -/

namespace ClaimQueue

/-- A task parked for good, why, and since when. -/
structure DeadLetter where
  task : Task
  reason : String
  movedAt : Instant
  deriving DecidableEq

namespace DeadLetter

structure Draft where
  task : Option Task := none
  reason : Option String := none
  movedAt : Option Instant := none

def ofDraft (d : Draft) : Except String DeadLetter :=
  match d.task, d.reason, d.movedAt with
  | none, _, _ => .error "task"
  | _, none, _ => .error "reason"
  | _, _, none => .error "moved_at"
  | some task, some reason, some movedAt => .ok ⟨task, reason, movedAt⟩

def document : Json.Record Draft DeadLetter where
  name := "DeadLetter"
  empty := {}
  fields := [
    Json.field "task" Task.decoder fun a d => { d with task := some a },
    Json.field "reason" .text fun a d => { d with reason := some a },
    Json.field "moved_at" Instant.decoder fun a d => { d with movedAt := some a }]
  build := ofDraft

def decoder : Json.Decoder DeadLetter := document.decoder

def toJson (d : DeadLetter) : Json := .object [
  ("task", d.task.toJson),
  ("reason", .string d.reason),
  ("moved_at", .string d.movedAt.text)]

def encoded (d : DeadLetter) : String := d.toJson.compact

end DeadLetter

structure QueueCounts where
  pending : Nat
  inFlight : Nat
  dead : Nat
  /-- Age of the oldest pending task in seconds, when it is known. -/
  oldestPending : Option Nat
  deriving DecidableEq, Repr

namespace QueueCounts

structure Draft where
  pending : Option Nat := none
  inFlight : Option Nat := none
  dead : Option Nat := none
  oldestPending : Option Nat := none

def ofDraft (d : Draft) : Except String QueueCounts :=
  match d.pending, d.inFlight, d.dead with
  | none, _, _ => .error "pending"
  | _, none, _ => .error "in_flight"
  | _, _, none => .error "dead"
  | some pending, some inFlight, some dead => .ok ⟨pending, inFlight, dead, d.oldestPending⟩

def document : Json.Record Draft QueueCounts where
  name := "QueueCounts"
  empty := {}
  fields := [
    Json.field "pending" .size fun a d => { d with pending := some a },
    Json.field "in_flight" .size fun a d => { d with inFlight := some a },
    Json.field "dead" .size fun a d => { d with dead := some a },
    Json.field "oldest_pending_secs" Json.Decoder.natural64.optional
      fun a d => { d with oldestPending := a }]
  build := ofDraft

def decoder : Json.Decoder QueueCounts := document.decoder

def toJson (c : QueueCounts) : Json := .object (
  [("pending", .int c.pending), ("in_flight", .int c.inFlight), ("dead", .int c.dead)] ++
  (match c.oldestPending with
    | some n => [("oldest_pending_secs", .int n)]
    | none => []))

end QueueCounts

end ClaimQueue
