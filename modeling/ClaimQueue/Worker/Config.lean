import ClaimQueue.Handler.Registry
import ClaimQueue.Queue.Error

/-! What a worker is given before it starts, and how it may end. -/

namespace ClaimQueue

namespace Worker

structure Config where
  caps : CapabilitySet := .empty
  /-- The handlers that may run, by name; every one, if there is no list. -/
  allow : Option (List String) := none
  /-- Leaves after so many tasks. -/
  tasks : Nat := 1
  /-- Leaves after so long without a task that it could run. -/
  idleLimit : Span := .ofSeconds 60
  /-- Takes no more tasks after so long. -/
  uptimeLimit : Option Span := none
  /-- Waits no longer for one task. -/
  poll : Span := .ofSeconds 5
  /-- Pause after a task was handed back. -/
  backoff : Span := .ofMillis 200

/-- A worker takes at least one task. -/
def Config.withTasks (n : Nat) (c : Config) : Config := { c with tasks := max n 1 }

/-- Why a worker left in good order. -/
inductive Reason where
  | completed
  | idleTimeout
  | maxUptime
  | shutdown
  deriving DecidableEq, Repr

def Reason.name : Reason → String
  | .completed => "completed"
  | .idleTimeout => "idle_timeout"
  | .maxUptime => "max_uptime"
  | .shutdown => "shutdown"

structure Exit where
  reason : Reason
  completed : Nat
  deriving DecidableEq, Repr

inductive Error where
  | queue (error : QueueError)
  | handlerFault (handler taskId message : String)
  deriving DecidableEq, Repr

namespace Error

def message : Error → String
  | .queue error => error.message
  | .handlerFault handler taskId message =>
    "handler '" ++ handler ++ "' faulted on task " ++ taskId ++ ": " ++ message

/-- The exit status of the process: 69 for broken surroundings, 70 for a broken handler. -/
def exitCode : Error → Nat
  | .queue _ => 69
  | .handlerFault _ _ _ => 70

end Error

/-- What workers of one make share. -/
structure Template where
  registry : Registry
  config : Config

/-- Kinds that are expected and have no handler. -/
def missing (r : Registry) (expected : List TaskKind) : List TaskKind :=
  expected.filter fun k => !r.kinds.contains k

def missingMessage (kinds : List TaskKind) : String :=
  "no handler registered for task kinds [" ++ ", ".intercalate (kinds.map TaskKind.title) ++ "]"

/-- A template, or the expected kinds that it lacks. -/
def Template.build (r : Registry) (config : Config) (expected : Option (List TaskKind)) :
    Except (List TaskKind) Template :=
  match missing r (expected.getD []) with
  | [] => .ok ⟨r, config⟩
  | lacking => .error lacking

end Worker

end ClaimQueue
