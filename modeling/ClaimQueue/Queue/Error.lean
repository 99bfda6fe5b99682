import ClaimQueue.Task.Wire

/-! What can go wrong at a result store and at a queue. -/

namespace ClaimQueue

inductive StoreError where
  | io (detail : String)
  | corrupt (fault : Json.Fault)
  | backend (detail : String)
  deriving DecidableEq, Repr

namespace StoreError

def message : StoreError → String
  | .io detail => "result store I/O failed: " ++ detail
  | .corrupt fault => "stored result is corrupt: " ++ fault.message
  | .backend detail => "result backend unreachable: " ++ detail

def failureClass : StoreError → FailureClass
  | .corrupt _ => .permanent
  | .io _ | .backend _ => .infrastructure

end StoreError

/-- What is wrong with a reply of the broker. -/
inductive ReplyFault where
  /-- The broker answered with an error. -/
  | refused (detail : String)
  /-- Not of the type that was asked for. -/
  | mistyped
  | unexpected (what reply : String)
  | unreadableClaim (id claim : String)
  deriving DecidableEq, Repr

def ReplyFault.message : ReplyFault → String
  | .refused detail => detail
  | .mistyped => "reply of another type"
  | .unexpected what reply => "unexpected " ++ what ++ ": " ++ reply
  | .unreadableClaim id claim => "unreadable claim for " ++ id ++ ": " ++ claim

inductive QueueError where
  | transport (detail : String)
  | protocol (fault : ReplyFault)
  | wire (error : WireError)
  | resultPersist (error : StoreError)
  | duplicateTask (id : String)
  deriving DecidableEq, Repr

namespace QueueError

def message : QueueError → String
  | .transport detail => "broker unreachable: " ++ detail
  | .protocol fault => "unexpected broker reply: " ++ fault.message
  | .wire error => error.message
  | .resultPersist error => "failed to persist result: " ++ error.message
  | .duplicateTask id => "task " ++ id ++ " is already known to this queue"

def failureClass : QueueError → FailureClass
  | .transport _ | .resultPersist _ => .infrastructure
  | .protocol _ => .transient
  | .wire _ | .duplicateTask _ => .permanent

end QueueError

end ClaimQueue
