import ClaimQueue.Task.Basic

/-! Results: what a worker publishes for an attempt, and their document. -/

namespace ClaimQueue

inductive ResultStatus where
  | ok
  | error
  | skip
  deriving DecidableEq, Repr

namespace ResultStatus

def name : ResultStatus → String
  | .ok => "ok"
  | .error => "error"
  | .skip => "skip"

def table : List (String × ResultStatus) := [.ok, .error, .skip].map fun s => (s.name, s)

def decoder : Json.Decoder ResultStatus := .variant table

end ResultStatus

structure TaskResult where
  taskId : String
  /-- Not known for a task that could not be read. -/
  kind : Option TaskKind
  status : ResultStatus
  data : Payload
  createdAt : Instant
  attemptsUsed : UInt32
  deriving DecidableEq

namespace TaskResult

def forTask (t : Task) (status : ResultStatus) (data : Payload) (now : Instant) : TaskResult :=
  ⟨t.id, some t.kind, status, data, now, countUp t.attempts⟩

def errorData (message : String) (retryable : Bool) : Payload :=
  [("error", .string message), ("retryable", .bool retryable)]

def ok (t : Task) (data : Payload) (now : Instant) : TaskResult := forTask t .ok data now

def error (t : Task) (message : String) (retryable : Bool) (now : Instant) : TaskResult :=
  forTask t .error (errorData message retryable) now

def skip (t : Task) (reason : String) (now : Instant) : TaskResult :=
  forTask t .skip [("reason", .string reason)] now

/-- The answer to a task of which only the id could be read. -/
def refused (id message : String) (now : Instant) : TaskResult :=
  ⟨id, none, .error, errorData message false, now, 0⟩

/-- Asks for another attempt: only `true` says so. -/
def isRetryable (r : TaskResult) : Bool :=
  (Index.find? "retryable" r.data).bind Json.flag? == some true

def errorMessage (r : TaskResult) : Option String := (Index.find? "error" r.data).bind Json.text?

def withData (r : TaskResult) (key : String) (value : Json) : TaskResult :=
  { r with data := Index.put key value r.data }

/-- Answers a task of the kind asked for, if one is asked for. -/
def matchesKind (r : TaskResult) : Option TaskKind → Bool
  | none => true
  | some kind => r.kind == some kind

structure Draft where
  taskId : Option String := none
  kind : Option TaskKind := none
  status : Option ResultStatus := none
  data : Payload := []
  createdAt : Option Instant := none
  attemptsUsed : UInt32 := 0

def ofDraft (d : Draft) : Except String TaskResult :=
  match d.taskId, d.status, d.createdAt with
  | none, _, _ => .error "task_id"
  | _, none, _ => .error "status"
  | _, _, none => .error "created_at"
  | some id, some status, some createdAt =>
    .ok ⟨id, d.kind, status, d.data, createdAt, d.attemptsUsed⟩

def document : Json.Record Draft TaskResult where
  name := "TaskResult"
  empty := {}
  fields := [
    Json.field "task_id" .text fun a d => { d with taskId := some a },
    Json.field "kind" TaskKind.decoder.optional fun a d => { d with kind := a },
    Json.field "status" ResultStatus.decoder fun a d => { d with status := some a },
    Json.field "data" .payload fun a d => { d with data := a },
    Json.field "created_at" Instant.decoder fun a d => { d with createdAt := some a },
    Json.field "attempts_used" .word fun a d => { d with attemptsUsed := a }]
  build := ofDraft

def decoder : Json.Decoder TaskResult := document.decoder

def toJson (r : TaskResult) : Json := .object (
  [("task_id", .string r.taskId)] ++
  (match r.kind with
    | some kind => [("kind", .string kind.name)]
    | none => []) ++
  [("status", .string r.status.name),
    ("data", .object r.data),
    ("created_at", .string r.createdAt.text),
    ("attempts_used", .int r.attemptsUsed.toNat)])

end TaskResult

end ClaimQueue
