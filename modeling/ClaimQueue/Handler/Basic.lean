import ClaimQueue.Failure
import ClaimQueue.Task.Basic
import ClaimQueue.Time.Span

/-! Handlers run tasks of one kind. A typed handler first decodes the payload; a payload of the
wrong shape fails for good. -/

namespace ClaimQueue

inductive HandlerError where
  /-- The payload is no `expected`. -/
  | payload (expected : String) (fault : Json.Fault)
  | failed (message : String) (retryable : Bool)
  deriving DecidableEq, Repr

namespace HandlerError

def message : HandlerError → String
  | .payload expected fault => "payload is not a valid " ++ expected ++ ": " ++ fault.message
  | .failed message _ => message

def isRetryable : HandlerError → Bool
  | .payload _ _ => false
  | .failed _ retryable => retryable

def failureClass (e : HandlerError) : FailureClass :=
  if e.isRetryable then .transient else .permanent

end HandlerError

inductive Outcome where
  | done (data : Payload)
  /-- Not for this worker: the task goes back for another. -/
  | skip (reason : String)
  | failed (error : HandlerError)
  /-- The handler broke down without an answer. -/
  | fault (message : String)
  deriving DecidableEq

/-- How long a handler is busy, and with what outcome. -/
structure Labour where
  takes : Span
  outcome : Outcome

structure Handler where
  name : String
  kind : TaskKind
  provides : CapabilitySet
  run : Task → Labour

/-- A handler over inputs of type `α`, which `expected` names. -/
def Handler.typed {α : Type} (name : String) (kind : TaskKind) (provides : CapabilitySet)
    (expected : String) (input : Json.Decoder α) (run : α → Task → Labour) : Handler where
  name := name
  kind := kind
  provides := provides
  run t := match input.ofValue (.object t.payload) with
    | .ok a => run a t
    | .error fault => ⟨⟨0⟩, .failed (.payload expected fault)⟩

end ClaimQueue
